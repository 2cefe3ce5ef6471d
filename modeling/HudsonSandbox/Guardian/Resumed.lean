import HudsonSandbox.Guardian.Retirement
import HudsonSandbox.Launch.Reconciled

/-!
# A removal can always go on

Between any two steps of a removal the directory holds what its plan lists, and its lock as long
as any other of the original files. `Remains` says so. From it a session can be opened again after
every crash, and the loop ends with the directory gone: `removal_resumes`.
-/

namespace HudsonSandbox.Guardian
open Checked AllocationAuthority AllocationRetirement
open Stored (Write)

/-! ### Sums -/

theorem checkedSum_some {start total : ℕ} {values : List ℕ} (h : checkedSum start values = some total) :
    total = start + values.sum := by
  induction values generalizing start with
  | nil => simpa using (Option.some.inj h).symm
  | cons n rest ih =>
    obtain ⟨next, added, h⟩ := Option.bind_eq_some_iff.mp h
    have word := ih h
    unfold checkedAdd at added
    split at added
    · have same := Option.some.inj added
      rw [List.sum_cons]
      omega
    · cases added

theorem checkedSum_fits {start : ℕ} {values : List ℕ} (fits : start + values.sum < 2 ^ 64) :
    checkedSum start values = some (start + values.sum) := by
  induction values generalizing start with
  | nil => rfl
  | cons n rest ih =>
    rw [List.sum_cons] at fits ⊢
    have head : checkedAdd 64 start n = some (start + n) := if_pos (by omega)
    have tail := @ih (start + n) (by omega)
    rw [checkedSum, head]
    change checkedSum (start + n) rest = _
    rw [tail, Nat.add_assoc]

theorem lengths_sum (files : Files) : (lengths files).sum = Maps.total (fun e => e.len) files := rfl

/-! ### What a plan lists -/

/-- A plan lists an original file under its name, and any other under a staging name. -/
def Listed (files staged : Files) (name : String) (e : Entry) : Prop :=
  if name ∈ NAMES then files.lookup name = some e
  else isStagingName name = true ∧ staged.lookup name = some e

/-- What is left of a directory under its plan. -/
structure Remains (texts : Texts) (identity : Identity) (files staged : Files) (d : Directory) : Prop where
  own : d.identity = identity
  owned : d.isDir = true ∧ d.uid = 0 ∧ d.mode &&& 0o077 = 0 ∧ d.canonical = true
  entries : ∀ file ∈ d.entries.entries, ∃ name e, file.1 = .text name ∧
    file.2.entry texts = .ok e ∧ Listed files staged name e
  lock : ∀ name ∈ NAMES, FileName.text name ∈ d.entries → FileName.text "lifecycle.lock" ∈ d.entries

/-- The directory is gone, or some of it remains. -/
def Partial (texts : Texts) (plan : Plan) (tree : Tree) : Prop :=
  ∀ d ∈ tree, match plan.metadata with
    | .absent => False
    | .stopped identity _ files staged => Remains texts identity files staged d

section
variable {texts : Texts} {identity : Identity} {files staged : Files} {d : Directory} {name : String}
  {e : Entry} {node : Node}

theorem Remains.lookup (remains : Remains texts identity files staged d)
    (found : d.entries.lookup (.text name) = some node) :
    ∃ e, node.entry texts = .ok e ∧ Listed files staged name e := by
  have member : (⟨.text name, node⟩ : Σ _ : FileName, Node) ∈ d.entries.entries :=
    AList.mem_lookup_iff.mp (Option.mem_def.mpr found)
  obtain ⟨other, e, same, read, listed⟩ := remains.entries _ member
  obtain rfl : name = other := FileName.text.inj same
  exact ⟨e, read, listed⟩

theorem Listed.original (listed : Listed files staged name e) (original : name ∈ NAMES) :
    files.lookup name = some e := by
  rwa [Listed, if_pos original] at listed

theorem Listed.staging (listed : Listed files staged name e) (other : name ∉ NAMES) :
    isStagingName name = true ∧ staged.lookup name = some e := by
  rwa [Listed, if_neg other] at listed

theorem sameEntry_ok {expected : Entry} {u : Unit} :
    sameEntry texts node expected = .ok u ↔ node.entry texts = .ok expected := by
  unfold sameEntry
  rw [bind_ok]
  constructor
  · rintro ⟨actual, read, same⟩
    rw [read, ensure_ok.mp same]
  · intro read
    exact ⟨expected, read, ensure_ok.mpr rfl⟩

/-! ### Reading the directory -/

/-- What a read of the directory has found so far. -/
structure Reads (staged : Files) (d : Directory) (rest : List (Σ _ : FileName, Node)) (found : Found) :
    Prop where
  actual : ∀ name ∈ found.actual, name ∈ NAMES ∧ FileName.text name ∈ d.entries
  staged : ∀ file ∈ found.staged.entries, file ∈ staged.entries ∧ file.1 ∉ NAMES ∧
    FileName.text file.1 ∈ d.entries
  fresh : ∀ name ∈ found.staged, FileName.text name ∉ rest.map (·.1)

/-- The bounds that a plan keeps for its staging files. -/
structure Bounded (staged : Files) : Prop where
  few : staged.keys.length ≤ MAX_STAGED_FILES
  small : Maps.total (fun e => e.len) staged ≤ MAX_STAGED_BYTES

theorem readDir_planned (remains : Remains texts identity files staged d) (bounded : Bounded staged)
    {rest : List (Σ _ : FileName, Node)} {found : Found} (within : rest ⊆ d.entries.entries)
    (nodup : (rest.map (·.1)).Nodup) (reads : Reads staged d rest found) :
    ∃ next, readDir texts found rest = .ok next ∧ Reads staged d [] next ∧
      ∀ name, (name ∈ found.actual ∨ name ∈ NAMES ∧ FileName.text name ∈ rest.map (·.1)) →
        name ∈ next.actual := by
  induction rest generalizing found with
  | nil =>
    refine ⟨found, rfl, ⟨reads.actual, reads.staged, by simp⟩, fun name held => ?_⟩
    rcases held with old | ⟨_, absent⟩
    · exact old
    · cases absent
  | cons file rest ih =>
    obtain ⟨key, node⟩ := file
    obtain ⟨present, tail⟩ := List.cons_subset.mp within
    obtain ⟨apart, distinct⟩ := List.nodup_cons.mp nodup
    obtain ⟨name, e, same, read, listed⟩ := remains.entries _ present
    obtain rfl : key = .text name := same
    have here : FileName.text name ∈ d.entries := List.mem_keys_of_mem present
    have read : node.entry texts = .ok e := read
    by_cases original : name ∈ NAMES
    · have reading : Reads staged d rest { found with actual := found.actual.insert name e } := by
        refine ⟨fun other held => ?_, reads.staged, fun other held queued => ?_⟩
        · rcases (AList.mem_insert _).mp held with rfl | old
          · exact ⟨original, here⟩
          · exact reads.actual other old
        · exact reads.fresh other held (List.mem_cons_of_mem _ queued)
      obtain ⟨next, done, reads, kept⟩ := ih tail distinct reading
      refine ⟨next, ?_, reads, fun other held => kept other ?_⟩
      · rw [readDir, if_pos original, read]
        exact done
      · rcases held with old | ⟨among, listed⟩
        · exact .inl ((AList.mem_insert _).mpr (.inr old))
        · rcases List.mem_cons.mp listed with head | tail
          · exact .inl ((AList.mem_insert _).mpr (.inl (FileName.text.inj head)))
          · exact .inr ⟨among, tail⟩
    · obtain ⟨staging, planned⟩ := listed.staging original
      have absent : name ∉ found.staged := fun held => reads.fresh name held List.mem_cons_self
      have subset : (found.staged.insert name e).entries ⊆ staged.entries := by
        rw [AList.entries_insert_of_notMem absent]
        intro other held
        rcases List.mem_cons.mp held with rfl | old
        · exact AList.mem_lookup_iff.mp planned
        · exact (reads.staged other old).1
      have few : found.staged.keys.length < MAX_STAGED_FILES := by
        have count := (Maps.subperm_subset subset).length_le
        have bound := bounded.few
        rw [AList.entries_insert_of_notMem absent, List.length_cons] at count
        simp only [AList.keys, List.keys, List.length_map] at bound ⊢
        omega
      have sum : (checkedSum e.len (lengths found.staged)).any (· ≤ MAX_STAGED_BYTES) = true := by
        have whole := (Maps.total_subset (fun e => e.len) subset).trans bounded.small
        rw [Maps.total_insert_absent _ absent, ← lengths_sum] at whole
        have word : e.len + (lengths found.staged).sum < 2 ^ 64 := by
          simp only [MAX_STAGED_BYTES] at whole
          omega
        rw [checkedSum_fits word]
        simpa using whole
      have reading : Reads staged d rest { found with staged := found.staged.insert name e } := by
        refine ⟨reads.actual, fun other held => ?_, fun other held queued => ?_⟩
        · have entry : other ∈ (found.staged.insert name e).entries := held
          rw [AList.entries_insert_of_notMem absent] at entry
          rcases List.mem_cons.mp entry with rfl | old
          · exact ⟨AList.mem_lookup_iff.mp planned, original, here⟩
          · exact reads.staged other old
        · rcases (AList.mem_insert _).mp held with rfl | old
          · exact apart queued
          · exact reads.fresh other old (List.mem_cons_of_mem _ queued)
      obtain ⟨next, done, reads, kept⟩ := ih tail distinct reading
      refine ⟨next, ?_, reads, fun other held => kept other ?_⟩
      · rw [readDir, if_neg original, if_pos staging, seq_of_ok (ensure_ok.mpr few), read]
        change (do ensure _ _; _) = _
        rw [seq_of_ok (ensure_ok.mpr sum)]
        exact done
      · rcases held with old | ⟨among, listed⟩
        · exact .inl old
        · rcases List.mem_cons.mp listed with head | tail
          · rw [FileName.text.inj head] at among
            exact absurd among original
          · exact .inr ⟨among, tail⟩

theorem planned_ok {message : String} {table : Files} {names : List String}
    (remains : Remains texts identity files staged d)
    (listed : ∀ name ∈ names, FileName.text name ∈ d.entries ∧
      ∀ e, Listed files staged name e → table.lookup name = some e) :
    planned texts d table message names = .ok () := by
  induction names with
  | nil => rfl
  | cons name rest ih =>
    obtain ⟨⟨present, plans⟩, others⟩ := List.forall_mem_cons.mp listed
    obtain ⟨node, found⟩ := Option.isSome_iff_exists.mp (AList.lookup_isSome.mpr present)
    obtain ⟨e, read, own⟩ := remains.lookup found
    rw [planned, plans e own]
    change (do
      let node ← okOr (d.entries.lookup (FileName.text name)) "not found"
      sameEntry texts node e
      planned texts d table message rest) = _
    rw [found]
    change (do sameEntry texts node e; _) = _
    rw [seq_of_ok (sameEntry_ok.mpr read)]
    exact ih others

/-! ### Opening again -/

theorem takeLifecycle_ok (remains : Remains texts identity files staged d)
    (empty : ∀ e, files.lookup "lifecycle.lock" = some e → e.len = 0) :
    takeLifecycle texts d false true = .ok (decide (FileName.text "lifecycle.lock" ∈ d.entries)) := by
  unfold takeLifecycle
  split
  next node found =>
    obtain ⟨e, read, listed⟩ := remains.lookup found
    have original := listed.original (by decide)
    have identity : node.identity = e.identity := by
      obtain ⟨_, made⟩ := seq_ok.mp read
      rw [← pure_ok.mp made]
    have held : FileName.text "lifecycle.lock" ∈ d.entries :=
      AList.lookup_isSome.mp (by rw [found]; rfl)
    rw [read, decide_eq_true held]
    change (do ensure _ _; _) = _
    rw [seq_of_ok (ensure_ok.mpr ⟨empty e original, identity⟩), seq_of_ok (ensure_ok.mpr rfl)]
    rfl
  next absent =>
    rw [decide_eq_false (AList.lookup_eq_none.mp absent)]
    rfl

/-- What validation says of a plan of a stopped guardian. -/
structure Evident (files staged : Files) : Prop where
  bounded : Bounded staged
  lock : ∀ e, files.lookup "lifecycle.lock" = some e → e.len = 0

theorem validate_stopped {plan : Plan} {intent : Intent} {manifest : Option Manifest}
    {receipt : Receipt} (stopped : plan.metadata = .stopped identity receipt files staged)
    (valid : plan.validate texts intent manifest = .ok ()) :
    manifest.isSome = true ∧ Evident files staged := by
  obtain ⟨digest, _, valid⟩ := bind_ok.mp valid
  obtain ⟨_, valid⟩ := seq_ok.mp valid
  rw [stopped] at valid
  cases manifest with
  | none => cases valid
  | some manifest =>
    dsimp only at valid
    obtain ⟨_, valid⟩ := seq_ok.mp valid
    obtain ⟨_, valid⟩ := seq_ok.mp valid
    obtain ⟨_, valid⟩ := seq_ok.mp valid
    obtain ⟨inventory, valid⟩ := seq_ok.mp valid
    obtain ⟨_, valid⟩ := seq_ok.mp valid
    obtain ⟨_, _, valid⟩ := bind_ok.mp valid
    obtain ⟨_, _, valid⟩ := bind_ok.mp valid
    obtain ⟨_, valid⟩ := seq_ok.mp valid
    obtain ⟨_, valid⟩ := seq_ok.mp valid
    obtain ⟨lock, _⟩ := seq_ok.mp valid
    obtain ⟨_, few, small, _⟩ := ensure_ok.mp inventory
    refine ⟨rfl, ⟨few, ?_⟩, fun e found => ?_⟩
    · obtain ⟨total, counted, below⟩ := (Option.any_eq_true _ _).mp small
      have sum := checkedSum_some counted
      rw [← lengths_sum]
      have bound : total ≤ MAX_STAGED_BYTES := of_decide_eq_true below
      omega
    · obtain ⟨file, known, same⟩ := bind_ok.mp lock
      have known := okOr_ok.mp known
      rw [found] at known
      obtain rfl := Option.some.inj known
      exact (ensure_ok.mp same).1

theorem inspect_ok (remains : Remains texts identity files staged d) (evident : Evident files staged)
    {manifest : Option Manifest} (held : manifest.isSome = true) {plan : Plan} {receipt : Receipt}
    (stopped : plan.metadata = .stopped identity receipt files staged) :
    ∃ found, inspect texts d manifest false (some plan) =
      .ok (decide (FileName.text "lifecycle.lock" ∈ d.entries), found) := by
  have start : Reads staged d d.entries.entries { actual := ∅, staged := ∅ } :=
    ⟨by simp, by simp, by simp⟩
  obtain ⟨found, read, reads, kept⟩ := readDir_planned remains evident.bounded (fun _ h => h)
    d.entries.nodupKeys start
  have lock : decide (FileName.text "lifecycle.lock" ∈ d.entries) = true ∨ found.actual.keys = [] := by
    rcases List.eq_nil_or_concat found.actual.keys with none_left | ⟨init, name, some_left⟩
    · exact .inr none_left
    · have member : name ∈ found.actual := by
        rw [AList.mem_keys, some_left]
        simp
      obtain ⟨original, present⟩ := reads.actual name member
      exact .inl (decide_eq_true (remains.lock name original present))
  have originals : planned texts d files "unplanned allocation metadata" found.actual.keys = .ok () := by
    refine planned_ok remains fun name listed => ?_
    obtain ⟨original, present⟩ := reads.actual name (AList.mem_keys.mpr listed)
    exact ⟨present, fun e own => own.original original⟩
  have others : planned texts d staged "unplanned staged allocation metadata" found.staged.keys =
      .ok () := by
    refine planned_ok remains fun name listed => ?_
    obtain ⟨file, member, rfl⟩ := List.mem_map.mp listed
    obtain ⟨_, other, present⟩ := reads.staged file member
    exact ⟨present, fun e own => (own.staging other).2⟩
  have checked : checkFound texts d found (some plan) = .ok () := by
    unfold checkFound
    rw [show some plan = some { plan with metadata := .stopped identity receipt files staged } by
      rw [← stopped]]
    dsimp only
    rw [seq_of_ok originals, others]
  refine ⟨found, ?_⟩
  rw [inspect, seq_of_ok (ensure_ok.mpr held)]
  change (do let lifecycle ← takeLifecycle texts d false true; _) = _
  rw [takeLifecycle_ok remains evident.lock]
  change (do let found ← readDir texts _ _; _) = _
  rw [read]
  change (do ensure _ _; _) = _
  rw [seq_of_ok (ensure_ok.mpr lock), seq_of_ok checked]
  rfl

/-- A session can be opened under a retained plan whatever part of the directory is left. -/
theorem open_ok {plan : Plan} {tree : Tree} {scope : Scope} {intent : Intent}
    {manifest : Option Manifest} (remains : Partial texts plan tree)
    (valid : plan.validate texts intent manifest = .ok ())
    (authority : authorized texts scope intent manifest = .ok ()) (free : scope.contended = false) :
    ∃ lifecycle, openSession texts scope tree intent manifest (some plan) =
      .ok { lifecycle, directory := tree.isSome, plan } := by
  cases tree with
  | none =>
    refine ⟨false, ?_⟩
    have checked : validateSaved texts intent manifest (some plan) = .ok () := valid
    rw [openSession, seq_of_ok authority, seq_of_ok checked]
    change (do plan.validate texts intent manifest; _) = _
    rw [seq_of_ok valid]
    rfl
  | some d =>
    have left := remains d rfl
    cases metadata : plan.metadata with
    | absent =>
      rw [metadata] at left
      exact left.elim
    | stopped identity receipt files staged =>
      rw [metadata] at left
      obtain ⟨held, evident⟩ := validate_stopped metadata valid
      obtain ⟨found, inspected⟩ := inspect_ok left evident held metadata
      have owned : privateDir d (some plan) = .ok () := by
        unfold privateDir
        rw [seq_of_ok (ensure_ok.mpr left.owned)]
        rw [show some plan = some { plan with metadata := .stopped identity receipt files staged } by
          rw [← metadata]]
        exact ensure_ok.mpr left.own
      refine ⟨decide (FileName.text "lifecycle.lock" ∈ d.entries), ?_⟩
      have checked : validateSaved texts intent manifest (some plan) = .ok () := valid
      rw [openSession, seq_of_ok authority, seq_of_ok checked, lookUp, seq_of_ok owned, free, inspected]
      change (do plan.validate texts intent manifest; _) = _
      rw [seq_of_ok valid]
      rfl

/-! ### What an open has checked -/

/-- A read keeps what it found under names that it does not see again. -/
theorem readDir_keeps {rest : List (Σ _ : FileName, Node)} {found next : Found}
    (read : readDir texts found rest = .ok next) (unseen : FileName.text name ∉ rest.map (·.1)) :
    next.actual.lookup name = found.actual.lookup name ∧
      next.staged.lookup name = found.staged.lookup name := by
  induction rest generalizing found with
  | nil =>
    obtain rfl := Except.ok.inj read
    exact ⟨rfl, rfl⟩
  | cons file rest ih =>
    obtain ⟨key, node⟩ := file
    obtain ⟨apart, later⟩ : FileName.text name ≠ key ∧ FileName.text name ∉ rest.map (·.1) := by
      simpa using unseen
    cases key with
    | raw bytes => cases read
    | text other =>
      have different : name ≠ other := fun same => apart (congrArg FileName.text same)
      rw [readDir] at read
      split at read
      · obtain ⟨e, _, read⟩ := bind_ok.mp read
        obtain ⟨actual, staged⟩ := ih read later
        exact ⟨actual.trans (AList.lookup_insert_ne different), staged⟩
      · split at read
        · obtain ⟨_, read⟩ := seq_ok.mp read
          obtain ⟨e, _, read⟩ := bind_ok.mp read
          obtain ⟨_, read⟩ := seq_ok.mp read
          obtain ⟨actual, staged⟩ := ih read later
          exact ⟨actual, staged.trans (AList.lookup_insert_ne different)⟩
        · cases read

/-- Every entry is read, and found under its name. -/
theorem readDir_listed {rest : List (Σ _ : FileName, Node)} {found next : Found}
    (read : readDir texts found rest = .ok next) (nodup : (rest.map (·.1)).Nodup) :
    ∀ file ∈ rest, ∃ name e, file.1 = .text name ∧ file.2.entry texts = .ok e ∧
      Listed next.actual next.staged name e := by
  induction rest generalizing found with
  | nil => simp
  | cons file rest ih =>
    obtain ⟨apart, distinct⟩ := List.nodup_cons.mp nodup
    obtain ⟨key, node⟩ := file
    cases key with
    | raw bytes => cases read
    | text name =>
      rw [readDir] at read
      split at read
      next original =>
        obtain ⟨e, own, read⟩ := bind_ok.mp read
        have kept := (readDir_keeps read apart).1
        rw [AList.lookup_insert] at kept
        refine List.forall_mem_cons.mpr ⟨⟨name, e, rfl, own, ?_⟩, ih read distinct⟩
        rw [Listed, if_pos original]
        exact kept
      next other =>
        split at read
        next staging =>
          obtain ⟨_, read⟩ := seq_ok.mp read
          obtain ⟨e, own, read⟩ := bind_ok.mp read
          obtain ⟨_, read⟩ := seq_ok.mp read
          have kept := (readDir_keeps read apart).2
          rw [AList.lookup_insert] at kept
          refine List.forall_mem_cons.mpr ⟨⟨name, e, rfl, own, ?_⟩, ih read distinct⟩
          rw [Listed, if_neg other]
          exact ⟨staging, kept⟩
        · cases read

theorem planned_listed {table : Files} {message : String} {names : List String}
    (h : planned texts d table message names = .ok ()) :
    ∀ name ∈ names, ∃ e node, table.lookup name = some e ∧
      d.entries.lookup (.text name) = some node ∧ node.entry texts = .ok e := by
  induction names with
  | nil => simp
  | cons name rest ih =>
    obtain ⟨e, known, h⟩ := bind_ok.mp h
    obtain ⟨node, found, h⟩ := bind_ok.mp h
    obtain ⟨same, h⟩ := seq_ok.mp h
    exact List.forall_mem_cons.mpr
      ⟨⟨e, node, okOr_ok.mp known, okOr_ok.mp found, sameEntry_ok.mp same⟩, ih h⟩

theorem takeLifecycle_held {contended saved : Bool}
    (h : takeLifecycle texts d contended saved = .ok true) :
    FileName.text "lifecycle.lock" ∈ d.entries := by
  unfold takeLifecycle at h
  split at h
  next node found => exact AList.lookup_isSome.mp (by rw [found]; rfl)
  next =>
    obtain ⟨_, h⟩ := seq_ok.mp h
    cases h

/-- What the inspection of a directory leaves to the plan of its session. -/
theorem inspect_remains {manifest : Option Manifest} {contended lifecycle : Bool} {saved : Option Plan}
    {found : Found} (h : inspect texts d manifest contended saved = .ok (lifecycle, found))
    (own : d.identity = identity)
    (owned : d.isDir = true ∧ d.uid = 0 ∧ d.mode &&& 0o077 = 0 ∧ d.canonical = true)
    (plans : ∀ name e, Listed found.actual found.staged name e → (∃ node,
      d.entries.lookup (.text name) = some node ∧ node.entry texts = .ok e) →
      Listed files staged name e) : Remains texts identity files staged d := by
  obtain ⟨_, h⟩ := seq_ok.mp h
  obtain ⟨taken, lock, h⟩ := bind_ok.mp h
  obtain ⟨listed, read, h⟩ := bind_ok.mp h
  obtain ⟨covered, h⟩ := seq_ok.mp h
  obtain ⟨_, h⟩ := seq_ok.mp h
  obtain ⟨rfl, rfl⟩ := Prod.mk.inj (pure_ok.mp h)
  have all := readDir_listed read d.entries.nodupKeys
  refine ⟨own, owned, fun file member => ?_, fun name original present => ?_⟩
  · obtain ⟨name, e, same, entry, mine⟩ := all file member
    refine ⟨name, e, same, entry, plans name e mine ⟨file.2, ?_, entry⟩⟩
    rw [← same]
    exact AList.mem_lookup_iff.mpr member
  · obtain ⟨file, member, same⟩ := List.mem_map.mp present
    obtain ⟨other, e, key, _, mine⟩ := all file member
    obtain rfl : name = other := FileName.text.inj (same.symm.trans key)
    have found := mine.original original
    rcases ensure_ok.mp covered with held | empty
    · subst held
      exact takeLifecycle_held lock
    · have known : name ∈ listed.actual.keys :=
        AList.mem_keys.mp (AList.lookup_isSome.mp (by rw [found]; rfl))
      rw [empty] at known
      cases known

theorem inspect_checked {manifest : Option Manifest} {contended lifecycle : Bool} {saved : Option Plan}
    {found : Found} (h : inspect texts d manifest contended saved = .ok (lifecycle, found)) :
    checkFound texts d found saved = .ok () := by
  obtain ⟨_, h⟩ := seq_ok.mp h
  obtain ⟨_, _, h⟩ := bind_ok.mp h
  obtain ⟨_, _, h⟩ := bind_ok.mp h
  obtain ⟨_, h⟩ := seq_ok.mp h
  obtain ⟨checked, h⟩ := seq_ok.mp h
  obtain ⟨_, rfl⟩ := Prod.mk.inj (pure_ok.mp h)
  exact checked

/-- What a retained plan lists is what it lists of the files found. -/
theorem checkFound_planned {plan : Plan} {receipt : Receipt} {found : Found}
    (stopped : plan.metadata = .stopped identity receipt files staged)
    (checked : checkFound texts d found (some plan) = .ok ()) (mine : Listed found.actual found.staged name e)
    (read : ∃ node, d.entries.lookup (.text name) = some node ∧ node.entry texts = .ok e) :
    Listed files staged name e := by
  obtain ⟨node, here, own⟩ := read
  rw [show some plan = some { plan with metadata := .stopped identity receipt files staged } by
    rw [← stopped]] at checked
  obtain ⟨originals, others⟩ := seq_ok.mp checked
  have agree : ∀ {table : Files} {message : String} {names : List String},
      planned texts d table message names = .ok () → name ∈ names → table.lookup name = some e := by
    intro table message names h listed
    obtain ⟨expected, other, known, there, entry⟩ := planned_listed h name listed
    rw [here] at there
    obtain rfl := Option.some.inj there
    rw [own] at entry
    obtain rfl := Except.ok.inj entry
    exact known
  have known : ∀ {table : Files}, table.lookup name = some e → name ∈ table.keys := by
    intro table found
    exact AList.mem_keys.mp (AList.lookup_isSome.mp (by rw [found]; rfl))
  by_cases original : name ∈ NAMES
  · rw [Listed, if_pos original]
    exact agree originals (known (mine.original original))
  · rw [Listed, if_neg original]
    obtain ⟨staging, held⟩ := mine.staging original
    exact ⟨staging, agree others (known held)⟩

/-- What a session that was opened knows of its plan and of the directory. -/
structure Opens (texts : Texts) (intent : Intent) (manifest : Option Manifest) (tree : Tree)
    (session : Session) : Prop where
  left : Partial texts session.plan tree
  valid : session.plan.validate texts intent manifest = .ok ()
  directory : session.directory = tree.isSome

theorem openSession_opens {scope : Scope} {tree : Tree} {intent : Intent} {manifest : Option Manifest}
    {saved : Option Plan} {session : Session}
    (h : openSession texts scope tree intent manifest saved = .ok session) :
    Opens texts intent manifest tree session ∧ ∀ plan ∈ saved, session.plan = plan := by
  obtain ⟨_, h⟩ := seq_ok.mp h
  obtain ⟨_, h⟩ := seq_ok.mp h
  obtain ⟨⟨lifecycle, found⟩, looked, h⟩ := bind_ok.mp h
  obtain ⟨plan, chosen, h⟩ := bind_ok.mp h
  obtain ⟨valid, h⟩ := seq_ok.mp h
  obtain rfl := pure_ok.mp h
  have same : ∀ retained ∈ saved, plan = retained := by
    rintro retained ⟨⟩
    exact (pure_ok.mp chosen).symm
  refine ⟨⟨?_, valid, rfl⟩, same⟩
  rintro d ⟨⟩
  obtain ⟨owned, looked⟩ := seq_ok.mp looked
  obtain ⟨private_, owned⟩ := seq_ok.mp owned
  have private_ := ensure_ok.mp private_
  cases saved with
  | some retained =>
    obtain rfl := same retained rfl
    cases metadata : plan.metadata with
    | absent =>
      rw [show some plan = some { plan with metadata := .absent } by rw [← metadata]] at owned
      cases owned
    | stopped identity receipt files staged =>
      have checked := inspect_checked looked
      rw [show some plan = some { plan with metadata := .stopped identity receipt files staged } by
        rw [← metadata]] at owned
      exact inspect_remains looked (ensure_ok.mp owned) private_
        fun name e mine read => checkFound_planned metadata checked mine read
  | none =>
    obtain ⟨metadata, made, chosen⟩ := bind_ok.mp chosen
    obtain ⟨digest, _, chosen⟩ := bind_ok.mp chosen
    obtain rfl := pure_ok.mp chosen
    cases manifest with
    | none =>
      obtain ⟨held, _⟩ := seq_ok.mp looked
      cases ensure_ok.mp held
    | some manifest =>
      obtain ⟨directory, given, made⟩ := bind_ok.mp made
      obtain rfl := Option.some.inj (okOr_ok.mp given)
      obtain ⟨_, _, made⟩ := bind_ok.mp made
      obtain ⟨_, _, made⟩ := bind_ok.mp made
      obtain ⟨_, _, made⟩ := bind_ok.mp made
      obtain ⟨_, made⟩ := seq_ok.mp made
      obtain ⟨_, _, made⟩ := bind_ok.mp made
      obtain ⟨_, made⟩ := seq_ok.mp made
      obtain ⟨_, made⟩ := seq_ok.mp made
      obtain rfl := pure_ok.mp made
      exact inspect_remains looked rfl private_ fun _ _ mine _ => mine

/-! ### One removal -/

/-- A file of the plan that was looked up is in the directory under its name. -/
theorem findSome_lookup {table : Files} {names : List String} {expected : Option Entry}
    (h : (names.map fun name => (name, table.lookup name)).findSome? (fun file =>
      (d.entries.lookup (.text file.1)).map fun node => (file.1, file.2, node)) =
        some (name, expected, node)) :
    name ∈ names ∧ d.entries.lookup (.text name) = some node ∧ expected = table.lookup name := by
  obtain ⟨file, listed, found⟩ := List.exists_of_findSome?_eq_some h
  obtain ⟨other, among, rfl⟩ := List.mem_map.mp listed
  obtain ⟨held, here, same⟩ := Option.map_eq_some_iff.mp found
  obtain ⟨rfl, rest⟩ := Prod.mk.inj same
  obtain ⟨rfl, rfl⟩ := Prod.mk.inj rest
  exact ⟨among, here, rfl⟩

theorem findSome_absent {table : Files} {names : List String}
    (h : (names.map fun name => (name, table.lookup name)).findSome? (fun file =>
      (d.entries.lookup (.text file.1)).map fun node => (file.1, file.2, node)) = none) :
    ∀ name ∈ names, FileName.text name ∉ d.entries := by
  intro name listed
  have none_left := List.findSome?_eq_none_iff.mp h _ (List.mem_map_of_mem listed)
  exact AList.lookup_eq_none.mp (Option.map_eq_none_iff.mp none_left)

/-- The next file is an original one, the lock last, or a staging file once these are gone. -/
structure Next (files staged : Files) (d : Directory) (name : String) (expected : Option Entry)
    (node : Node) : Prop where
  held : d.entries.lookup (.text name) = some node
  order : (name ∈ NAMES ∧ expected = files.lookup name ∧ (name = "lifecycle.lock" →
      ∀ other ∈ NAMES, other ≠ name → FileName.text other ∉ d.entries)) ∨
    expected = staged.lookup name ∧ ∀ other ∈ NAMES, FileName.text other ∉ d.entries

theorem nextFile_next {plan : Plan} {receipt : Receipt} {expected : Option Entry}
    (stopped : plan.metadata = .stopped identity receipt files staged)
    (h : nextFile plan d = some (name, expected, node)) : Next files staged d name expected node := by
  unfold nextFile at h
  rw [stopped] at h
  dsimp only at h
  rw [List.findSome?_append] at h
  rcases Option.or_eq_some_iff.mp h with original | ⟨absent, other⟩
  · obtain ⟨among, held, same⟩ := findSome_lookup original
    refine ⟨held, .inl ⟨among, same, ?_⟩⟩
    rintro rfl other listed different present
    obtain ⟨first, found⟩ := Option.isSome_iff_exists.mp (AList.lookup_isSome.mpr present)
    -- The lock is the last of the names, so another one that is present comes first.
    obtain rfl | rfl | rfl : other = "receipt.json" ∨ other = "manifest.json" ∨
        other = "lifecycle.lock" := by simpa [NAMES] using listed
    · simp [NAMES, found] at original
    · cases receipts : d.entries.lookup (.text "receipt.json") with
      | none => simp [NAMES, receipts, found] at original
      | some node => simp [NAMES, receipts] at original
    · exact different rfl
  · obtain ⟨_, held, same⟩ := findSome_lookup other
    exact ⟨held, .inr ⟨same, findSome_absent absent⟩⟩

theorem Directory.lookup_remove {other : FileName} (different : other ≠ .text name) :
    (d.remove name).entries.lookup other = d.entries.lookup other :=
  AList.lookup_erase_ne different

theorem Remains.next {expected : Option Entry} (remains : Remains texts identity files staged d)
    (next : Next files staged d name expected node) :
    (∃ e, expected = some e ∧ node.entry texts = .ok e) ∧
      Remains texts identity files staged (d.remove name) := by
  obtain ⟨e, read, listed⟩ := remains.lookup next.held
  have present : FileName.text name ∈ d.entries := AList.lookup_isSome.mp (by rw [next.held]; rfl)
  refine ⟨⟨e, ?_, read⟩, remains.own, remains.owned, fun file member => ?_, fun other original left => ?_⟩
  · rcases next.order with ⟨original, same, _⟩ | ⟨same, gone⟩
    · exact same.trans (listed.original original)
    · exact same.trans (listed.staging fun original => gone name original present).2
  · have kept : file ∈ d.entries.entries := (List.kerase_sublist _ _).subset member
    exact remains.entries file kept
  · obtain ⟨different, before⟩ := AList.mem_erase.mp left
    have lock := remains.lock other original before
    refine AList.mem_erase.mpr ⟨?_, lock⟩
    intro same
    rcases next.order with ⟨_, _, last⟩ | ⟨_, gone⟩
    · have name_lock : name = "lifecycle.lock" := (FileName.text.inj same).symm
      exact last name_lock other original (fun equal => different (congrArg _ equal)) before
    · exact gone other original before

/-- With no file left to remove, the directory is empty. -/
theorem Remains.finished {plan : Plan} {receipt : Receipt}
    (remains : Remains texts identity files staged d)
    (stopped : plan.metadata = .stopped identity receipt files staged)
    (none_left : nextFile plan d = none) : d.entries.keys = [] := by
  unfold nextFile at none_left
  rw [stopped] at none_left
  dsimp only at none_left
  rw [List.findSome?_append] at none_left
  obtain ⟨originals, others⟩ := Option.or_eq_none_iff.mp none_left
  rcases List.eq_nil_or_concat d.entries.keys with empty | ⟨init, last, some_left⟩
  · exact empty
  · have present : last ∈ d.entries.keys := by
      rw [some_left]
      simp
    obtain ⟨file, member, rfl⟩ := List.mem_map.mp present
    obtain ⟨name, e, same, _, listed⟩ := remains.entries file member
    rw [same] at present
    by_cases original : name ∈ NAMES
    · exact absurd present (findSome_absent originals name original)
    · have known : name ∈ ordered staged := by
        rw [ordered, List.mem_mergeSort]
        have found := (listed.staging original).2
        exact AList.mem_keys.mp (AList.lookup_isSome.mp (by rw [found]; rfl))
      exact absurd present (findSome_absent others name known)

/-- A plan lists a file under a name. -/
def Plan.Lists (plan : Plan) (name : String) (e : Entry) : Prop :=
  match plan.metadata with
  | .absent => False
  | .stopped _ _ files staged => files.lookup name = some e ∨ staged.lookup name = some e

theorem nextFile_lists {plan : Plan} (h : nextFile plan d = some (name, some e, node)) :
    plan.Lists name e ∧ d.entries.lookup (.text name) = some node := by
  unfold nextFile at h
  split at h
  · cases h
  next identity receipt files staged stopped =>
    have lists (held : files.lookup name = some e ∨ staged.lookup name = some e) :
        plan.Lists name e := by
      unfold Plan.Lists
      simpa only [stopped] using held
    dsimp only at h
    rw [List.findSome?_append] at h
    rcases Option.or_eq_some_iff.mp h with original | ⟨_, other⟩
    · obtain ⟨_, held, same⟩ := findSome_lookup original
      exact ⟨lists (.inl same.symm), held⟩
    · obtain ⟨_, held, same⟩ := findSome_lookup other
      exact ⟨lists (.inr same.symm), held⟩

/-- Everything one step can do. -/
inductive RemoveStep (texts : Texts) (session : Session) (tree : Versions Tree) (write : Write) :
    Versions Tree × Session × Except String Bool → Prop where
  | refused (e : String) : RemoveStep texts session tree write (tree, session, .error e)
  | file (d : Directory) (name : String) (e : Entry) (node : Node) (open_ : session.directory = true)
      (visible : tree.visible = some d) (chosen : nextFile session.plan d = some (name, some e, node))
      (read : node.entry texts = .ok e) :
      RemoveStep texts session tree write (tree.write (some (d.remove name)) write, session,
        if write = .done then .ok false else .error "input/output error")
  | directory (d : Directory) (open_ : session.directory = true) (visible : tree.visible = some d)
      (empty : d.entries.keys = []) (changed : write ≠ .lost) :
      RemoveStep texts session tree write (tree.write none write, { session with directory := false },
        if write = .done then .ok true else .error "input/output error")
  | parent (closed : session.directory = false) (done : write = .done) :
      RemoveStep texts session tree write (tree.sync, session, .ok true)

theorem removeNext_step (session : Session) (tree : Versions Tree) (write : Write) :
    RemoveStep texts session tree write (removeNext texts session tree write) := by
  unfold removeNext
  split
  next open_ =>
    split
    · exact .refused _
    next d visible =>
      split
      next name expected node chosen =>
        split
        next same =>
          obtain ⟨e, rfl, read⟩ := Option.map_eq_some_iff.mp same
          exact .file d name e node open_ visible chosen (sameEntry_ok.mp read)
        · exact .refused _
        · exact .refused _
      · split
        next empty =>
          split
          · exact .refused _
          next changed => exact .directory d open_ visible empty changed
        · exact .refused _
  next closed =>
    split
    next done => exact .parent (by simpa using closed) done
    · exact .refused _

/-- Only what the plan lists goes, whatever else has become of the directory. -/
theorem removeNext_lists {session : Session} {tree : Versions Tree} {write : Write} {file : FileName}
    (visible : tree.visible = some d) (held : d.entries.lookup file = some node)
    (gone : ∀ left, (removeNext texts session tree write).1.visible = some left →
      left.entries.lookup file ≠ some node) :
    ∃ name e, file = .text name ∧ session.plan.Lists name e ∧ node.entry texts = .ok e := by
  have step : RemoveStep texts session tree write (removeNext texts session tree write) :=
    removeNext_step session tree write
  generalize removeNext texts session tree write = next at step gone
  cases step with
  | refused e => exact absurd held (gone d visible)
  | file other name e removed open_ same chosen read =>
    obtain rfl : d = other := Option.some.inj (visible.symm.trans same)
    obtain ⟨lists, here⟩ := nextFile_lists chosen
    by_cases hit : file = .text name
    · subst hit
      rw [held] at here
      obtain rfl := Option.some.inj here
      exact ⟨name, e, rfl, lists, read⟩
    · exfalso
      have kept : (d.remove name).entries.lookup file = some node :=
        (Directory.lookup_remove hit).trans held
      cases write with
      | done => exact gone _ rfl kept
      | lost => exact gone d visible held
      | unsynced => exact gone _ Versions.visible_unsynced kept
  | directory other open_ same empty changed =>
    obtain rfl : d = other := Option.some.inj (visible.symm.trans same)
    have present : file ∈ d.entries := AList.lookup_isSome.mp (by rw [held]; rfl)
    rw [AList.mem_keys, empty] at present
    cases present
  | parent closed done => exact absurd held (gone d visible)

/-! ### The loop -/

/-- The entries that are left, and the directory itself. -/
def remaining (tree : Tree) : ℕ :=
  match tree with
  | none => 0
  | some d => d.entries.keys.length + 1

theorem remaining_remove (held : d.entries.lookup (.text name) = some node) :
    remaining (some (d.remove name)) + 1 = remaining (some d) := by
  have present : FileName.text name ∈ d.entries.keys :=
    AList.mem_keys.mp (AList.lookup_isSome.mp (by rw [held]; rfl))
  have positive := List.length_pos_of_mem present
  have shorter : (d.remove name).entries.keys.length = d.entries.keys.length - 1 := by
    rw [Directory.remove, AList.keys_erase, List.length_erase_of_mem present]
  simp only [remaining]
  omega

/-- What a session and the directory in front of it are to each other. -/
structure Attends (texts : Texts) (plan : Plan) (tree : Versions Tree) (session : Session) : Prop where
  plan : session.plan = plan
  directory : session.directory = tree.visible.isSome

/-- A step that is not cut short removes something, or nothing is left. -/
theorem removeNext_done {plan : Plan} {tree : Versions Tree} {session : Session}
    (left : tree.Always (Partial texts plan)) (attends : Attends texts plan tree session) :
    (∃ d next, tree.visible = some d ∧ remaining next + 1 = remaining (some d) ∧ next.isSome = true ∧
      Partial texts plan next ∧
      removeNext texts session tree .done = (.of next, session, .ok false)) ∨
    ∃ closed, removeNext texts session tree .done = (.of none, closed, .ok true) := by
  cases visible : tree.visible with
  | none =>
    have closed : session.directory ≠ true := by
      rw [attends.directory, visible]
      decide
    right
    refine ⟨session, ?_⟩
    rw [removeNext, if_neg closed, if_pos rfl, Versions.sync, visible]
  | some d =>
    have open_ : session.directory = true := by rw [attends.directory, visible]; rfl
    have remains := left.visible d visible
    split at remains
    · exact remains.elim
    next identity receipt files staged stopped =>
      cases chosen : nextFile plan d with
      | none =>
        right
        refine ⟨{ session with directory := false }, ?_⟩
        have empty := remains.finished stopped chosen
        rw [removeNext, if_pos open_, visible]
        dsimp only
        rw [attends.plan, chosen]
        dsimp only
        rw [if_pos empty]
        rfl
      | some file =>
        obtain ⟨name, expected, node⟩ := file
        have next := nextFile_next stopped chosen
        obtain ⟨⟨e, rfl, read⟩, rest⟩ := remains.next next
        left
        refine ⟨d, some (d.remove name), rfl, remaining_remove next.held, rfl, ?_, ?_⟩
        · rintro other ⟨⟩
          rw [stopped]
          exact rest
        · rw [removeNext, if_pos open_, visible]
          dsimp only
          rw [attends.plan, chosen]
          dsimp only
          have same : sameEntry texts node e = .ok () := sameEntry_ok.mpr read
          rw [Option.map_some, same]
          rfl

/-- The loop ends, and nothing is left. -/
theorem removeAll_done {plan : Plan} {fuel : ℕ} {tree : Versions Tree} {session : Session}
    (left : tree.Always (Partial texts plan)) (attends : Attends texts plan tree session)
    (enough : remaining tree.visible < fuel) :
    removeAll texts fuel session tree = (.of none, .ok ()) := by
  induction fuel generalizing tree session with
  | zero => omega
  | succ fuel ih =>
    rw [removeAll]
    rcases removeNext_done left attends with ⟨d, next, visible, fewer, some_left, partial_, stepped⟩ |
      ⟨closed, stepped⟩
    · rw [stepped]
      dsimp only
      rw [visible] at enough
      exact ih (.of partial_) ⟨attends.plan, by rw [attends.directory, visible]; exact some_left.symm⟩
        (by rw [Versions.visible_of]; omega)
    · rw [stepped]

end

/-! ### Every run -/

namespace Removal

structure Inv (texts : Texts) (intent : Intent) (manifest : Option Manifest) (plan : Plan)
    (s : Removal) : Prop where
  retained : s.plan = plan
  valid : plan.validate texts intent manifest = .ok ()
  left : s.tree.Always (Partial texts plan)
  session : ∀ session ∈ s.session, Attends texts plan s.tree session

section
variable {texts : Texts} {intent : Intent} {manifest : Option Manifest} {plan : Plan} {s : Removal}

/-- A step leaves what its plan lists. -/
theorem removeNext_left {session : Session} {tree next : Versions Tree} {after : Session}
    {answer : Except String Bool} {write : Write} (left : tree.Always (Partial texts plan))
    (attends : Attends texts plan tree session)
    (stepped : removeNext texts session tree write = (next, after, answer)) :
    next.Always (Partial texts plan) ∧ ∀ done, answer = .ok done → Attends texts plan next after := by
  have step : RemoveStep texts session tree write (removeNext texts session tree write) :=
    removeNext_step session tree write
  rw [stepped] at step
  cases step with
  | refused e => exact ⟨left, by rintro done ⟨⟩⟩
  | file d name e node open_ visible chosen read =>
    have remains := left.visible d visible
    rw [attends.plan] at chosen
    have rest : Partial texts plan (some (d.remove name)) := by
      rintro other ⟨⟩
      cases metadata : plan.metadata with
      | absent =>
        rw [metadata] at remains
        exact remains.elim
      | stopped identity receipt files staged =>
        rw [metadata] at remains
        exact (remains.next (nextFile_next metadata chosen)).2
    refine ⟨left.write rest write, fun done same => ?_⟩
    split at same
    next finished =>
      subst finished
      exact ⟨attends.plan, open_⟩
    · cases same
  | directory d open_ visible empty changed =>
    have none_left : Partial texts plan none := by rintro d ⟨⟩
    refine ⟨left.write none_left write, fun done same => ?_⟩
    split at same
    next finished =>
      subst finished
      exact ⟨attends.plan, rfl⟩
    · cases same
  | parent closed done =>
    refine ⟨left.sync, fun _ _ => ⟨attends.plan, ?_⟩⟩
    exact attends.directory

theorem step_inv (inv : Inv texts intent manifest plan s) (event : Event) :
    Inv texts intent manifest plan (s.step texts intent manifest event) := by
  cases event with
  | reopen scope =>
    simp only [step]
    split
    next session none_held opened =>
      obtain ⟨opens, kept⟩ := openSession_opens opened
      refine ⟨inv.retained, inv.valid, inv.left, ?_⟩
      rintro held ⟨⟩
      exact ⟨(kept s.plan rfl).trans inv.retained, opens.directory⟩
    · exact inv
  | removeNext write =>
    simp only [step]
    split
    · exact inv
    next session held =>
      have attends := inv.session session held
      split
      next tree after done stepped =>
        obtain ⟨left, kept⟩ := removeNext_left inv.left attends stepped
        refine ⟨inv.retained, inv.valid, left, ?_⟩
        rintro other ⟨⟩
        exact kept done rfl
      next tree after e stepped =>
        exact ⟨inv.retained, inv.valid, (removeNext_left inv.left attends stepped).1, by rintro other ⟨⟩⟩
  | crash => exact ⟨inv.retained, inv.valid, inv.left, by rintro other ⟨⟩⟩
  | powerLoss kept => exact ⟨inv.retained, inv.valid, inv.left.recover kept, by rintro other ⟨⟩⟩

theorem runs_inv (inv : Inv texts intent manifest plan s) (events : List Event) :
    Inv texts intent manifest plan (s.runs texts intent manifest events) := by
  have keeps : ∀ s event, Inv texts intent manifest plan s →
      Inv texts intent manifest plan (s.step texts intent manifest event) :=
    fun _ event inv => step_inv inv event
  exact Run.run_invariant keeps inv

end

/-- What holds of every run from a session that was opened. -/
structure Resumes (texts : Texts) (intent : Intent) (manifest : Option Manifest) (start : Removal) :
    Prop where
  /-- The checks outside of the directory still pass, and nobody holds the lock. -/
  reopens : ∀ events scope, authorized texts scope intent manifest = .ok () → scope.contended = false →
    ∃ session, session.plan = start.plan ∧
      openSession texts scope (start.runs texts intent manifest events).tree.visible intent manifest
        (some start.plan) = .ok session
  /-- Whatever another process has made of the tree, only what the plan lists goes. -/
  lists : ∀ events session, (start.runs texts intent manifest events).session = some session →
    ∀ (tree : Versions Tree) (write : Write) (d : Directory) (file : FileName) (node : Node),
      tree.visible = some d → d.entries.lookup file = some node →
      (∀ left, (Guardian.removeNext texts session tree write).1.visible = some left →
        left.entries.lookup file ≠ some node) →
      ∃ name e, file = .text name ∧ start.plan.Lists name e ∧ node.entry texts = .ok e
  decreases : ∀ events session, (start.runs texts intent manifest events).session = some session →
    ∃ next after, Guardian.removeNext texts session (start.runs texts intent manifest events).tree .done =
        (.of next, after, .ok next.isNone) ∧
      (next.isSome = true → remaining next <
        remaining (start.runs texts intent manifest events).tree.visible)
  ends : ∀ events session, (start.runs texts intent manifest events).session = some session →
    removeAll texts (remaining (start.runs texts intent manifest events).tree.visible + 1) session
      (start.runs texts intent manifest events).tree = (.of none, .ok ())

section
variable {texts : Texts} {scope : Scope} {tree : Tree} {intent : Intent} {manifest : Option Manifest}
  {saved : Option Plan} {session : Session}

/-- The removal of a session, from the directory it was opened on. -/
def start (tree : Tree) (session : Session) : Removal :=
  { tree := .of tree, session := some session, plan := session.plan }

theorem start_inv (opened : openSession texts scope tree intent manifest saved = .ok session) :
    Inv texts intent manifest session.plan (start tree session) := by
  obtain ⟨opens, _⟩ := openSession_opens opened
  refine ⟨rfl, opens.valid, .of opens.left, ?_⟩
  rintro other ⟨⟩
  exact ⟨rfl, opens.directory⟩

theorem removal_resumes (opened : openSession texts scope tree intent manifest saved = .ok session) :
    Resumes texts intent manifest (start tree session) := by
  have reached : ∀ events, Inv texts intent manifest session.plan
      ((start tree session).runs texts intent manifest events) :=
    fun events => runs_inv (start_inv opened) events
  refine ⟨?_, ?_, ?_, ?_⟩
  · intro events scope authority free
    have inv := reached events
    obtain ⟨lifecycle, again⟩ := open_ok inv.left.visible inv.valid authority free
    refine ⟨_, ?_, again⟩
    rfl
  · intro events held present tree write d file node visible found gone
    obtain ⟨name, e, same, lists, read⟩ := removeNext_lists visible found gone
    rw [((reached events).session held present).plan] at lists
    exact ⟨name, e, same, lists, read⟩
  · intro events held present
    have inv := reached events
    rcases removeNext_done inv.left (inv.session held present) with
      ⟨d, next, visible, fewer, some_left, _, stepped⟩ | ⟨closed, stepped⟩
    · refine ⟨next, held, ?_, fun _ => ?_⟩
      · rw [stepped, Option.isNone_eq_false_iff.mpr some_left]
      · rw [visible]
        omega
    · exact ⟨none, closed, stepped, by rintro ⟨⟩⟩
  · intro events held present
    have inv := reached events
    exact removeAll_done inv.left (inv.session held present) (Nat.lt_succ_self _)

end
end Removal

/-! The directory of a guardian that stopped, with one staging file that was left behind. -/

section
open Authority

def samplePermit : Permit where
  host := sampleHost
  project := ⟨0x01900000000070008000000000000002#128⟩
  sandbox := ⟨0x01900000000070008000000000000003#128⟩
  allocation := ⟨0x01900000000070008000000000000004#128⟩
  createOperation := ⟨0x01900000000070008000000000000005#128⟩
  generation := 1
  originalEpoch := 1
  serial := 1

def sampleRetirement : OperationId := ⟨0x01900000000070008000000000000006#128⟩

def sampleIntent : Intent where
  version := 1
  retirement := sampleRetirement
  permit := samplePermit
  commands := .empty
  files := .empty
  releaseEvidenceSha256 := List.replicate 64 48
  simulated := false

def sampleLedger : Authority :=
  { version := 1, host := sampleHost, through := 1
    entries := [{ permit := samplePermit, state := .fenced sampleRetirement }] }

def sampleArtifact : Artifact := { path := ['/', 'k'], sha256 := List.replicate 64 48 }

def sampleManifest : Manifest where
  launchPermit := some samplePermit
  config :=
    { stateRoot := ['/', 'a'], cgroupParent := "/sys/fs/cgroup/guardians".toList
      firecracker := sampleArtifact, jailer := sampleArtifact, kernel := sampleArtifact
      rootfs := sampleArtifact, jailUid := 65534, jailGid := 65534 }
  start :=
    { owner :=
        { host := sampleHost, project := samplePermit.project, sandbox := samplePermit.sandbox
          allocation := samplePermit.allocation, createOperation := samplePermit.createOperation
          generation := 1, epoch := 1 }
      vcpu := 1, memoryMib := 128, diskMib := 64, expiresUnixMs := 1 }

def sampleReceipt : Receipt where
  version := 1
  owner := sampleManifest.start.owner
  digest := hex (Vector.replicate 32 0)
  hostBootId := ['b']
  state := .stopped
  cleanupConfirmed := true
  renewalRevision := 0
  expiresUnixMs := 1
  guardianHostPid := none
  guardianStartTicks := none
  firecrackerNamespacePid := none
  cgroupInode := none
  reason := none
  identityDigest := none
  identityExpiresUnixMs := none
  guestBootId := none

noncomputable def sampleTexts : Texts where
  json := Authority.textJson
  intents := .only sampleIntent [1]
  sha256 _ := Vector.replicate 32 0
  serde := Authority.textJson_serde
  manifests := .only sampleManifest [2]
  receipts := .only sampleReceipt [3]

def sampleNode (inode : ℕ) (bytes : List UInt8) : Node :=
  { identity := { device := 1, inode }, regular := true, uid := 0, mode := 0o600, nlink := 1, bytes }

def sampleDirectory : Directory where
  identity := { device := 1, inode := 1 }
  isDir := true
  uid := 0
  mode := 0o700
  canonical := true
  entries := (((∅ : AList fun _ : FileName => Node).insert (.text "lifecycle.lock") (sampleNode 2 [])).insert
    (.text "op_01900000-0000-7000-8000-000000000007.tmp") (sampleNode 3 [4])).insert
    (.text "manifest.json") (sampleNode 4 [2]) |>.insert (.text "receipt.json") (sampleNode 5 [3])

def sampleScope : Scope where
  root := ['/', 'a']
  cgroupParent := "/sys/fs/cgroup/guardians".toList
  minimum := { epoch := 1, registeredThrough := 1 }
  authority := { epoch := 1, ledger := sampleLedger }
  group := false
  contended := false
  privileged := true

theorem sampleLedger_stored : sampleLedger.Stored := by
  have valid : samplePermit.Valid := by
    refine ⟨?_, ?_, ?_, ?_, ?_, ?_, ?_, ?_, ?_⟩ <;> decide
  have words : samplePermit.Words := by
    refine ⟨?_, ?_, ?_⟩ <;> decide
  have only : ∀ {P : AllocationAuthority.Entry → Prop},
      P { permit := samplePermit, state := .fenced sampleRetirement } → ∀ e ∈ sampleLedger.entries, P e := by
    intro P holds e member
    rw [List.mem_singleton.mp member]
    exact holds
  exact ⟨⟨rfl, by decide, by decide, only valid, only rfl, List.pairwise_singleton _ _,
    only (by decide), List.nodup_singleton _, List.nodup_singleton _, List.nodup_singleton _,
    only rfl, by decide⟩, only words⟩

theorem sampleScope_authorized :
    authorized sampleTexts sampleScope sampleIntent (some sampleManifest) = .ok () := by
  have sound : Launch.Sound sampleHost sampleScope.authority := ⟨sampleLedger_stored, rfl⟩
  have loaded : sampleScope.authority.load sampleTexts.toTexts sampleHost sampleScope.minimum =
      .ok sampleLedger := Launch.load_covered sound ⟨by decide, by decide⟩
  have granted : sampleScope.authority.authorizeDeletion sampleTexts.toTexts sampleHost
      sampleScope.minimum sampleIntent = .ok () := by
    have shape : (sampleIntent.validate.mapError fun _ => "invalid retirement intent") = .ok () := by
      decide +kernel
    rw [Inner.AuthorityFile.authorizeDeletion, seq_of_ok shape,
      seq_of_ok (ensure_ok.mpr (by decide)), loaded]
    decide +kernel
  have rest : sampleManifest.validate sampleTexts true = .ok () := by decide +kernel
  rw [authorized]
  change (do sampleScope.authority.authorizeDeletion _ sampleHost _ _; _) = _
  rw [seq_of_ok granted, seq_of_ok (ensure_ok.mpr (by decide +kernel)),
    seq_of_ok (ensure_ok.mpr (by decide))]
  change (do sampleManifest.validate sampleTexts true; _) = _
  rw [seq_of_ok rest]
  decide +kernel

/-- The directory is complete, and its guardian stopped. -/
theorem sampleSession_opens : ∃ session, openSession sampleTexts sampleScope (some sampleDirectory)
    sampleIntent (some sampleManifest) none = .ok session := by
  rw [openSession, seq_of_ok sampleScope_authorized]
  have succeeds : ∀ {result : Except String Session}, result.isOk = true →
      ∃ session, result = .ok session := by
    intro result ok
    cases result with
    | error e => cases ok
    | ok session => exact ⟨session, rfl⟩
  apply succeeds
  decide +kernel

theorem sampleSession_resumes : ∃ session,
    openSession sampleTexts sampleScope (some sampleDirectory) sampleIntent (some sampleManifest) none =
        .ok session ∧
      Removal.Resumes sampleTexts sampleIntent (some sampleManifest)
        (Removal.start (some sampleDirectory) session) := by
  obtain ⟨session, opened⟩ := sampleSession_opens
  exact ⟨session, opened, Removal.removal_resumes opened⟩

end
end HudsonSandbox.Guardian
