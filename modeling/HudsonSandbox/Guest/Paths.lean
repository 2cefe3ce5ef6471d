import HudsonSandbox.Protocol.Display
import HudsonSandbox.Protocol.Paths

/-!
# The workspace directory

A path that passed its check is split into the directory that is opened beneath the workspace root and the
name of an entry in it. The kernel resolves the directory; what is shown here is where the entry lies.
-/

namespace HudsonSandbox.Workspace
open Checked Files

abbrev Name := List UInt8

/-- The entries below the workspace root that a resolution without symbolic links and without crossing a
mount can pass through. A directory and a file with a single link are each held by one entry. -/
structure Tree (ι : Type) where
  root : ι
  child : ι → Name → Option ι
  isDirectory : ι → Bool
  isFile : ι → Bool
  links : ι → ℕ
  top : ∀ d name, child d name ≠ some root
  holder : ∀ d name e, child d name = some e → isDirectory d = true
  unique : ∀ e, isDirectory e = true ∨ isFile e = true ∧ links e = 1 →
    ∀ a b m n, child a m = some e → child b n = some e → a = b ∧ m = n

namespace Tree
variable {ι : Type} (tree : Tree ι)

/-- The node that names lead to, one entry after another. -/
def descend (d : ι) (names : List Name) : Option ι := names.foldlM tree.child d

/-- Resolution beneath the last of the directories: empty components and `.` stay, `..` goes back and never
past the first one. -/
def beneath : List ι → List Name → Option ι
  | [], _ => none
  | here :: _, [] => some here
  | here :: back, name :: rest =>
    if name = [] ∨ name = [46] then beneath (here :: back) rest
    else if name = [46, 46] then beneath back rest
    else (tree.child here name).bind fun next => beneath (next :: here :: back) rest

end Tree

/-- `openat2` with BENEATH, NO_SYMLINKS and NO_XDEV: a directory to start from, a path, and whether only a
directory will do. -/
abbrev Openat2 (ι : Type) := ι → List UInt8 → Bool → Option ι

/-- What the flags promise of a resolution that succeeds. -/
def Documented {ι : Type} (tree : Tree ι) (openat2 : Openat2 ι) : Prop :=
  ∀ d path directory e, openat2 d path directory = some e →
    path.head? ≠ some 47 ∧ tree.beneath [d] (components path) = some e ∧
      (directory = true → tree.isDirectory e = true)

namespace Root
variable {ι : Type}

/-- The text around the last separator. -/
def rsplitOnce (separator : Char) (path : List Char) : Option (List Char × List Char) :=
  (splitOnce separator path.reverse).map fun parts => (parts.2.reverse, parts.1.reverse)

/-- The directory that holds the entry a path names, and the entry's name. -/
def parent (openat2 : Openat2 ι) (root : ι) (path : List Char) : Except String (ι × Name) := do
  validatePath path
  let parts := (rsplitOnce '/' path).getD (['.'], path)
  let directory ← okOr (openat2 root (Utf8.encode parts.1) true) "openat2"
  pure (directory, Utf8.encode parts.2)

/-- The regular file a path names, if no other entry holds it. -/
def regular (tree : Tree ι) (openat2 : Openat2 ι) (d : ι) (path : List Char) : Except String ι := do
  let pinned ← okOr (openat2 d (Utf8.encode path) false) "openat2"
  ensure (tree.isFile pinned = true ∧ tree.links pinned = 1) "file must be regular and singly linked"
  pure pinned

/-- The file a capture reads. -/
def capture (tree : Tree ι) (openat2 : Openat2 ι) (root : ι) (path : List Char) : Except String ι := do
  validatePath path
  regular tree openat2 root path

end Root

/-! ### Splitting -/

/-- A path is its directory and its last component; without a separator the directory is `.`. -/
theorem rsplitOnce_components (path : List Char) :
    let parts := (Root.rsplitOnce '/' path).getD (['.'], path)
    ∃ names, components (Utf8.encode path) = names ++ [Utf8.encode parts.2] ∧
      (names = [] ∧ parts.1 = ['.'] ∨ components (Utf8.encode parts.1) = names) := by
  unfold Root.rsplitOnce
  cases found : splitOnce '/' path.reverse with
  | none =>
    have plain : '/' ∉ path := fun member => splitOnce_none found (List.mem_reverse.mpr member)
    refine ⟨[], ?_, .inl ⟨rfl, rfl⟩⟩
    rw [components_encode, List.splitOn_eq_singleton plain]
    rfl
  | some parts =>
    obtain ⟨last, front⟩ := parts
    have whole : path = front.reverse ++ '/' :: last.reverse := by
      have back := congrArg List.reverse (splitOnce_eq found)
      rw [List.reverse_reverse] at back
      rw [back]
      simp
    have plain : '/' ∉ last.reverse := fun member => splitOnce_apart found (List.mem_reverse.mp member)
    refine ⟨components (Utf8.encode front.reverse), ?_, .inr rfl⟩
    show components (Utf8.encode path) = components (Utf8.encode front.reverse) ++ [Utf8.encode last.reverse]
    rw [whole, components_encode, components_encode, List.splitOn_append_cons_self, List.splitOn_eq_singleton plain,
      List.map_append]
    rfl

/-! ### Resolution -/

variable {ι : Type} {tree : Tree ι} {openat2 : Openat2 ι}

/-- Names of entries lead nowhere but down. -/
theorem beneath_names {names : List Name} (plain : ∀ name ∈ names, EntryName name) (here : ι) (back : List ι) :
    tree.beneath (here :: back) names = tree.descend here names := by
  induction names generalizing here back with
  | nil => rfl
  | cons name rest ih =>
    obtain ⟨⟨some_, dot, dots, _⟩, later⟩ := List.forall_mem_cons.mp plain
    have stays : ¬(name = [] ∨ name = [46]) := fun same => same.elim some_ dot
    rw [Tree.beneath, if_neg stays, if_neg dots]
    unfold Tree.descend
    rw [List.foldlM_cons]
    cases found : tree.child here name with
    | none => rfl
    | some next => exact ih later next (here :: back)

theorem descend_append (d : ι) (front back : List Name) :
    tree.descend d (front ++ back) = (tree.descend d front).bind fun e => tree.descend e back := List.foldlM_append

theorem descend_snoc {d e : ι} {front : List Name} {name : Name} :
    tree.descend d (front ++ [name]) = some e ↔ ∃ h, tree.descend d front = some h ∧ tree.child h name = some e := by
  rw [descend_append, Option.bind_eq_some_iff]
  have one : ∀ h, tree.descend h [name] = tree.child h name := by
    intro h
    unfold Tree.descend
    rw [List.foldlM_cons]
    cases tree.child h name <;> rfl
  simp only [one]

/-- A node that only one entry holds is reached along one list of names. -/
theorem descend_unique {e : ι} {names others : List Name}
    (single : tree.isDirectory e = true ∨ tree.isFile e = true ∧ tree.links e = 1)
    (first : tree.descend tree.root names = some e) (second : tree.descend tree.root others = some e) :
    names = others := by
  induction names using List.reverseRecOn generalizing e others with
  | nil =>
    have root : e = tree.root := (Option.some.inj first).symm
    cases others using List.reverseRecOn with
    | nil => rfl
    | append_singleton front name =>
      obtain ⟨h, _, entry⟩ := descend_snoc.mp second
      rw [root] at entry
      exact absurd entry (tree.top h name)
  | append_singleton front name ih =>
    obtain ⟨h, before, entry⟩ := descend_snoc.mp first
    cases others using List.reverseRecOn with
    | nil =>
      have root : e = tree.root := (Option.some.inj second).symm
      rw [root] at entry
      exact absurd entry (tree.top h name)
    | append_singleton front' name' =>
      obtain ⟨h', before', entry'⟩ := descend_snoc.mp second
      obtain ⟨holder, same⟩ := tree.unique e single h h' name name' entry entry'
      rw [← holder] at before'
      rw [same, ih (.inl (tree.holder h name e entry)) before before']

/-- An entry of the workspace: its directory lies at or below the root, and neither it nor the directory is
the guest's own or below that. -/
structure Confined (tree : Tree ι) (names : List Name) (directory : ι) (name : Name) : Prop where
  located : tree.descend tree.root names = some directory
  isDirectory : tree.isDirectory directory = true
  plain : ∀ part ∈ names ++ [name], EntryName part ∧ 47 ∉ part
  other : ¬(directory = tree.root ∧ name = stateDirectory)
  outside : ∀ own, tree.child tree.root stateDirectory = some own → ∀ inner, tree.descend own inner ≠ some directory
  target : ∀ e, tree.child directory name = some e →
    tree.isDirectory e = true ∨ tree.isFile e = true ∧ tree.links e = 1 →
      e ≠ tree.root ∧ ∀ own, tree.child tree.root stateDirectory = some own → ∀ inner, tree.descend own inner ≠ some e

/-- What lies below the guest's own directory is reached through its name. -/
theorem below_own {own e : ι} (held : tree.child tree.root stateDirectory = some own) {inner names : List Name}
    (below : tree.descend own inner = some e)
    (single : tree.isDirectory e = true ∨ tree.isFile e = true ∧ tree.links e = 1)
    (reached : tree.descend tree.root names = some e) : names.head? = some stateDirectory := by
  have through : tree.descend tree.root (stateDirectory :: inner) = some e := by
    unfold Tree.descend at below ⊢
    rw [List.foldlM_cons, held]
    exact below
  rw [descend_unique single reached through]
  rfl

/-- The components of an accepted path lead to a confined entry. -/
theorem confined {path : List UInt8} (accepted : Accepted path) {names : List Name} {name : Name}
    (split : components path = names ++ [name]) {directory : ι} (located : tree.descend tree.root names = some directory)
    (isDirectory : tree.isDirectory directory = true) : Confined tree names directory name := by
  have first : (names ++ [name]).head? ≠ some stateDirectory := by
    rw [← split]
    exact accepted.outside
  refine ⟨located, isDirectory, ?_, ?_, ?_, ?_⟩
  · intro part member
    rw [← split] at member
    exact ⟨accepted.names part member, Utf8.not_mem_of_mem_splitOn member⟩
  · rintro ⟨root, same⟩
    have top : tree.descend tree.root [] = some directory := by
      rw [root]
      rfl
    have none_ : names = [] := descend_unique (.inl isDirectory) located top
    rw [none_, same] at first
    exact first rfl
  · intro own held inner below
    have through := below_own held below (.inl isDirectory) located
    rw [List.head?_append, through] at first
    exact first rfl
  · intro e entry single
    have reached : tree.descend tree.root (names ++ [name]) = some e := descend_snoc.mpr ⟨directory, located, entry⟩
    refine ⟨?_, ?_⟩
    · intro root
      rw [root] at entry
      exact tree.top directory name entry
    · intro own held inner below
      exact first (below_own held below single reached)

theorem opened (documented : Documented tree openat2) {path : List UInt8} {d e : ι} {directory : Bool}
    (found : openat2 d path directory = some e) {names : List Name} (plain : ∀ name ∈ names, EntryName name)
    (split : names = [] ∧ path = [46] ∨ components path = names) : tree.descend d names = some e := by
  obtain ⟨_, resolved, _⟩ := documented d path directory e found
  rcases split with ⟨none_, dot⟩ | same
  · rw [dot] at resolved
    rw [none_]
    exact resolved
  · rw [same, beneath_names plain] at resolved
    exact resolved

/-- The check accepts exactly the paths made of names of entries, which their components give back, and the
entry a path names lies strictly beneath the workspace root and outside the guest's own directory, both when
a file is published under it and when one is captured from it. -/
theorem paths_confined (documented : Documented tree openat2) :
    (∀ path, validatePath path = .ok () ↔ Accepted (Utf8.encode path)) ∧
      (∀ a b, validatePath a = .ok () → validatePath b = .ok () → a.splitOn '/' = b.splitOn '/' → a = b) ∧
      (∀ path directory name, Root.parent openat2 tree.root path = .ok (directory, name) →
        ∃ names, components (Utf8.encode path) = names ++ [name] ∧ Confined tree names directory name) ∧
      ∀ path file, Root.capture tree openat2 tree.root path = .ok file →
        ∃ names directory name, components (Utf8.encode path) = names ++ [name] ∧
          Confined tree names directory name ∧ tree.child directory name = some file ∧
          file ≠ tree.root ∧ ∀ own, tree.child tree.root stateDirectory = some own →
            ∀ inner, tree.descend own inner ≠ some file := by
  refine ⟨fun _ => validatePath_accepted, ?_, ?_, ?_⟩
  · intro a b _ _ same
    have joined : ∀ path : List Char, ['/'].intercalate (path.splitOn '/') = path :=
      fun path => List.intercalate_splitOn '/'
    rw [← joined a, ← joined b, same]
  · intro path directory name found
    obtain ⟨valid, found⟩ := seq_ok.mp found
    obtain ⟨e, opens, same⟩ := bind_ok.mp found
    cases pure_ok.mp same
    have accepted := validatePath_accepted.mp valid
    have opens := okOr_ok.mp opens
    obtain ⟨names, split, parts⟩ := rsplitOnce_components path
    have plain : ∀ part ∈ names, EntryName part := by
      intro part member
      apply accepted.names
      rw [split]
      exact List.mem_append_left _ member
    have located : tree.descend tree.root names = some directory := by
      apply opened documented opens plain
      exact parts.imp_left fun none_ => ⟨none_.1, by rw [none_.2]; rfl⟩
    exact ⟨names, split, confined accepted split located ((documented _ _ _ _ opens).2.2 rfl)⟩
  · intro path file found
    obtain ⟨valid, found⟩ := seq_ok.mp found
    obtain ⟨e, opens, found⟩ := bind_ok.mp found
    obtain ⟨regular, same⟩ := seq_ok.mp found
    cases pure_ok.mp same
    have accepted := validatePath_accepted.mp valid
    have single := ensure_ok.mp regular
    obtain ⟨names, split, _⟩ := rsplitOnce_components path
    have reached : tree.descend tree.root (names ++ [Utf8.encode ((Root.rsplitOnce '/' path).getD (['.'], path)).2]) = some file :=
      opened documented (okOr_ok.mp opens) (fun part member => accepted.names part (split ▸ member)) (.inr split)
    obtain ⟨directory, located, entry⟩ := descend_snoc.mp reached
    have held := confined accepted split located (tree.holder directory _ file entry)
    exact ⟨names, directory, _, split, held, entry, held.target file entry (.inr single)⟩

section WorkspaceSample

/-- The guest's own directory, one other directory and a file in it. -/
def sampleChild (d : ℕ) (name : Name) : Option ℕ :=
  if d = 0 ∧ name = stateDirectory then some 1
  else if d = 0 ∧ name = [100] then some 2
  else if d = 2 ∧ name = [102] then some 3
  else none

theorem sampleChild_some {d e : ℕ} {name : Name} (entry : sampleChild d name = some e) :
    (d = 0 ∧ name = stateDirectory ∧ e = 1) ∨ (d = 0 ∧ name = [100] ∧ e = 2) ∨ (d = 2 ∧ name = [102] ∧ e = 3) := by
  unfold sampleChild at entry
  split at entry
  next own => exact .inl ⟨own.1, own.2, (Option.some.inj entry).symm⟩
  next =>
    split at entry
    next other => exact .inr (.inl ⟨other.1, other.2, (Option.some.inj entry).symm⟩)
    next =>
      split at entry
      next file => exact .inr (.inr ⟨file.1, file.2, (Option.some.inj entry).symm⟩)
      next => cases entry

def sample : Tree ℕ where
  root := 0
  child := sampleChild
  isDirectory d := d < 3
  isFile d := d = 3
  links _ := 1
  top d name entry := by rcases sampleChild_some entry with held | held | held <;> simp at held
  holder d name e entry := by
    rcases sampleChild_some entry with held | held | held <;> rw [held.1] <;> rfl
  unique e _ a b m n first second := by
    rcases sampleChild_some first with one | one | one <;> rcases sampleChild_some second with two | two | two <;>
      obtain ⟨rfl, rfl, rfl⟩ := one <;> obtain ⟨rfl, rfl, same⟩ := two <;> first | exact ⟨rfl, rfl⟩ | cases same

/-- A kernel that does what the flags promise. -/
def sampleOpenat2 : Openat2 ℕ := fun d path directory =>
  if path.head? = some 47 then none
  else (sample.beneath [d] (components path)).filter fun e => !directory || sample.isDirectory e

theorem sampleOpenat2_documented : Documented sample sampleOpenat2 := by
  intro d path directory e found
  unfold sampleOpenat2 at found
  split at found
  next => cases found
  next relative =>
    obtain ⟨resolved, kind⟩ := Option.filter_eq_some_iff.mp found
    refine ⟨relative, resolved, ?_⟩
    rintro rfl
    exact kind

theorem sample_confined :
    Root.parent sampleOpenat2 0 "d/f".toList = .ok (2, [102]) ∧ Confined sample [[100]] 2 [102] := by
  have found : Root.parent sampleOpenat2 sample.root "d/f".toList = .ok (2, [102]) := rfl
  obtain ⟨names, split, held⟩ := (paths_confined sampleOpenat2_documented).2.2.1 _ _ _ found
  have whole : [[100]] ++ [[102]] = names ++ [[102]] := split
  have same : [[100]] = names := List.append_cancel_right whole
  rw [same]
  exact ⟨found, held⟩

end WorkspaceSample

end HudsonSandbox.Workspace
