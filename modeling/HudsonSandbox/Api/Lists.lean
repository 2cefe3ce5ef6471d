import HudsonSandbox.Api.Files
import HudsonSandbox.Library.Delimited
import HudsonSandbox.Library.Turns
import HudsonSandbox.Store.Lists

/-!
# Listing collections

A page names the next one by a cursor: the position of its last row, with the project, the collection and the
filter it was made for. A caller that follows the cursors sees every row once, newest first, whatever newer
rows come in meanwhile.
-/

namespace HudsonSandbox.Collections
open Checked Lists Text

def MAX_CURSOR_BYTES : ℕ := 2048

inductive Kind where
  | sandboxes | operations
  deriving DecidableEq, Repr

def Kind.snakeCase : Kind → String
  | .sandboxes => "sandboxes"
  | .operations => "operations"

structure Cursor where
  version : ℕ
  project : ProjectId
  kind : Kind
  sandbox : Option SandboxId
  createdMicros : ℤ
  id : String
  deriving DecidableEq

def nullable : Option SandboxId → List Char
  | none => "null".toList
  | some sandbox => quoted sandbox.display

/-- The compact JSON of the record, fields in declaration order; the text of an identity needs no escapes. -/
def Cursor.json (self : Cursor) : List Char :=
  object
    [ member "version" (decimal self.version),
      member "project" (quoted self.project.display),
      member "kind" (quoted self.kind.snakeCase.toList),
      member "sandbox" (nullable self.sandbox),
      member "created_micros" (integer self.createdMicros),
      member "id" (quoted self.id.toList) ]

/-- The record is ASCII, so each character is the byte that stands for it. -/
def Cursor.bytes (self : Cursor) : List UInt8 := self.json.map fun c => UInt8.ofNat c.toNat

def invalidCursor : Api.Problem := .badRequest "invalid cursor for this collection"

def stripPrefix (head text : List Char) : Option (List Char) :=
  if head.isPrefixOf text then some (text.drop head.length) else none

def parseId (kind : Kind) (id : String) : Except IdParseError Uuid :=
  match kind with
  | .sandboxes => (TypedId.parse id : Except IdParseError SandboxId).map TypedId.uuid
  | .operations => (TypedId.parse id : Except IdParseError OperationId).map TypedId.uuid

def showId (kind : Kind) (id : Uuid) : String :=
  match kind with
  | .sandboxes => (⟨id⟩ : SandboxId).toString
  | .operations => (⟨id⟩ : OperationId).toString

/-- A time that can be represented, from year -9999 to year 9999. -/
def fromUnixTimestampNanos (nanos : ℤ) : Option ℤ :=
  if -377705116800 ≤ nanos / 1000000000 ∧ nanos / 1000000000 ≤ 253402300799 then some nanos else none

/-- `readJson` reads the record back from its bytes. -/
def decodeSome (readJson : List UInt8 → Option Cursor) (value : String) (project : ProjectId) (kind : Kind)
    (sandbox : Option SandboxId) : Except Api.Problem Position := do
  ensure (value.utf8ByteSize ≤ MAX_CURSOR_BYTES) invalidCursor
  let digits ← okOr (stripPrefix "v1.".toList value.toList) invalidCursor
  let bytes ← okOr (unhex digits) invalidCursor
  let cursor ← okOr (readJson bytes) invalidCursor
  ensure (cursor.version = 1 ∧ cursor.project = project ∧ cursor.kind = kind ∧ cursor.sandbox = sandbox) invalidCursor
  let id ← (parseId kind cursor.id).mapError fun _ => invalidCursor
  let createdAt ← okOr (fromUnixTimestampNanos (cursor.createdMicros * 1000)) invalidCursor
  pure { createdAt, id }

def decode (readJson : List UInt8 → Option Cursor) (value : Option String) (project : ProjectId) (kind : Kind)
    (sandbox : Option SandboxId) : Except Api.Problem (Option Position) :=
  match value with
  | none => .ok none
  | some value => (decodeSome readJson value project kind sandbox).map some

def cursorOf (position : Position) (project : ProjectId) (kind : Kind) (sandbox : Option SandboxId) : Cursor :=
  { version := 1, project, kind, sandbox, createdMicros := position.createdAt.tdiv 1000, id := showId kind position.id }

def Cursor.text (self : Cursor) : String := String.ofList ("v1.".toList ++ hex self.bytes)

def encode (position : Option Position) (project : ProjectId) (kind : Kind) (sandbox : Option SandboxId) :
    Except Api.Problem (Option String) :=
  match position with
  | none => .ok none
  | some position => do
    ensure (-2 ^ 63 ≤ position.createdAt.tdiv 1000 ∧ position.createdAt.tdiv 1000 < 2 ^ 63) .internal
    pure (some (cursorOf position project kind sandbox).text)

def limit (value : Option ℕ) : Except Api.Problem ℕ := do
  ensure (1 ≤ value.getD 50 ∧ value.getD 50 ≤ 100) (.badRequest "limit must be between 1 and 100")
  pure (value.getD 50)

structure Store where
  sandboxes : List Row
  operations : List Row

def Store.sandboxForProject (self : Store) (project : ProjectId) (sandbox : SandboxId) : Bool :=
  self.sandboxes.any fun r => r.id = sandbox.uuid ∧ r.project = project

/-- The rows of a page, and the cursor of the next one. -/
def sandboxes (readJson : List UInt8 → Option Cursor) (store : Store) (caller : ProjectId) (size : Option ℕ)
    (cursor : Option String) : Except Api.Problem (List Row × Option String) := do
  let size ← limit size
  let before ← decode readJson cursor caller .sandboxes none
  let page := listSandboxes store.sandboxes caller before size
  let nextCursor ← encode page.next caller .sandboxes none
  pure (page.items, nextCursor)

/-- A page of operations, once the filter is known to name a sandbox of the project. -/
def operationsPage (store : Store) (caller : ProjectId) (sandbox : Option SandboxId) (size : ℕ) (before : Option Position) :
    Except Api.Problem (List Row × Option String) := do
  let page := listOperations store.operations caller sandbox before size
  let nextCursor ← encode page.next caller .operations sandbox
  pure (page.items, nextCursor)

def operations (readJson : List UInt8 → Option Cursor) (store : Store) (caller : ProjectId) (sandbox : Option SandboxId)
    (size : Option ℕ) (cursor : Option String) : Except Api.Problem (List Row × Option String) := do
  let size ← limit size
  let before ← decode readJson cursor caller .operations sandbox
  ensure (∀ s ∈ sandbox, store.sandboxForProject caller s = true) .notFound
  operationsPage store caller sandbox size before

/-! ### Cursors -/

section Cursors
variable {readJson : List UInt8 → Option Cursor} {project : ProjectId} {kind : Kind} {sandbox : Option SandboxId} {row : Row}

theorem stripPrefix_append (head rest : List Char) : stripPrefix head (head ++ rest) = some rest := by
  unfold stripPrefix
  rw [if_pos (List.isPrefixOf_iff_prefix.mpr (List.prefix_append head rest)), List.drop_left]

theorem parseId_showId (kind : Kind) {id : Uuid} (minted : id.getVersionNum = 7) : parseId kind (showId kind id) = .ok id := by
  cases kind with
  | sandboxes => exact map_ok.mpr ⟨⟨id⟩, TypedId.parse_ok.mpr ⟨rfl, minted⟩, rfl⟩
  | operations => exact map_ok.mpr ⟨⟨id⟩, TypedId.parse_ok.mpr ⟨rfl, minted⟩, rfl⟩

theorem showId_length (kind : Kind) (id : Uuid) : (showId kind id).toList.length ≤ 40 := by
  cases kind with
  | sandboxes =>
    show (String.ofList (⟨id⟩ : SandboxId).display).toList.length ≤ 40
    rw [String.toList_ofList, TypedId.display_length]
    decide
  | operations =>
    show (String.ofList (⟨id⟩ : OperationId).display).toList.length ≤ 40
    rw [String.toList_ofList, TypedId.display_length]
    decide

theorem integer_length_abs {n : ℤ} {k : ℕ} (positive : 0 < k) (bound : n.natAbs < 10 ^ k) :
    (integer n).length ≤ k + 1 := by
  cases n with
  | ofNat m => exact Nat.le_succ_of_le (decimal_length positive bound)
  | negSucc m => exact Nat.succ_le_succ (decimal_length positive bound)

theorem position_micros (row : Row) : row.position.createdAt.tdiv 1000 = row.created := by
  show (row.created * 1000).tdiv 1000 = row.created
  exact Int.mul_tdiv_cancel _ (by omega)

/-- The cursor of a row fits well below the limit on cursors. -/
theorem cursor_json_length (row : Row) (project : ProjectId) (kind : Kind) (sandbox : Option SandboxId) :
    (cursorOf row.position project kind sandbox).json.length ≤ 300 := by
  have version := @decimal_length 1 1 (by omega) (by omega)
  have owner := project.display_length
  have named : kind.snakeCase.toList.length ≤ 10 := by cases kind <;> decide
  have filter : (nullable sandbox).length ≤ 42 := by
    cases sandbox with
    | none => decide
    | some s =>
      show (quoted s.display).length ≤ 42
      rw [quoted_length, s.display_length]
      decide
  have dated := row.dated
  have micros := @integer_length_abs row.created 18 (by omega) (by omega)
  have id := showId_length kind row.id
  have title : (Resource.PREFIX .project).length = 3 := rfl
  have whole := object_length
    [ member "version" (decimal 1), member "project" (quoted project.display), member "kind" (quoted kind.snakeCase.toList),
      member "sandbox" (nullable sandbox),
      member "created_micros" (integer row.created), member "id" (quoted (showId kind row.id).toList) ]
  simp only [List.map_cons, List.map_nil, List.sum_cons, List.sum_nil, member_length, quoted_length,
    show "version".length = 7 from rfl, show "project".length = 7 from rfl, show "kind".length = 4 from rfl,
    show "sandbox".length = 7 from rfl, show "created_micros".length = 14 from rfl, show "id".length = 2 from rfl] at whole
  have same : (cursorOf row.position project kind sandbox).json = _ := congrArg (fun micros =>
    object
      [ member "version" (decimal 1), member "project" (quoted project.display), member "kind" (quoted kind.snakeCase.toList),
        member "sandbox" (nullable sandbox), member "created_micros" (integer micros),
        member "id" (quoted (showId kind row.id).toList) ]) (position_micros row)
  rw [same]
  refine whole.trans ?_
  omega

/-- The record of a row's cursor is read back from its own bytes. -/
def Keeps (readJson : List UInt8 → Option Cursor) (project : ProjectId) (kind : Kind) (sandbox : Option SandboxId)
    (row : Row) : Prop :=
  readJson (cursorOf row.position project kind sandbox).bytes = some (cursorOf row.position project kind sandbox)

theorem text_size (row : Row) (project : ProjectId) (kind : Kind) (sandbox : Option SandboxId) :
    (cursorOf row.position project kind sandbox).text.utf8ByteSize ≤ MAX_CURSOR_BYTES := by
  have short := cursor_json_length row project kind sandbox
  have printable : Printable ("v1.".toList ++ hex (cursorOf row.position project kind sandbox).bytes) :=
    Printable.append (by decide) (hex_printable _)
  unfold Cursor.text
  rw [utf8ByteSize_printable printable, List.length_append, hex_length, Cursor.bytes, List.length_map]
  show 3 + 2 * _ ≤ 2048
  omega

theorem text_digits (cursor : Cursor) : stripPrefix "v1.".toList cursor.text.toList = some (hex cursor.bytes) := by
  have same : cursor.text.toList = "v1.".toList ++ hex cursor.bytes := String.toList_ofList
  exact (congrArg (stripPrefix _) same).trans (stripPrefix_append _ _)

theorem encode_row (row : Row) (project : ProjectId) (kind : Kind) (sandbox : Option SandboxId) :
    encode (some row.position) project kind sandbox = .ok (some (cursorOf row.position project kind sandbox).text) := by
  have dated := row.dated
  have micros := position_micros row
  exact seq_ok.mpr ⟨ensure_ok.mpr (by rw [micros]; omega), rfl⟩

/-- The cursor of a row leads back to the row's position. -/
theorem decode_row (kept : Keeps readJson project kind sandbox row) :
    decode readJson (some (cursorOf row.position project kind sandbox).text) project kind sandbox =
      .ok (some row.position) := by
  have dated := row.dated
  have current : fromUnixTimestampNanos (row.created * 1000) = some (row.created * 1000) := if_pos (by omega)
  apply map_ok.mpr
  refine ⟨row.position, ?_, rfl⟩
  apply seq_ok.mpr
  refine ⟨ensure_ok.mpr (text_size row project kind sandbox), bind_ok.mpr ⟨_, okOr_ok.mpr (text_digits _), ?_⟩⟩
  apply bind_ok.mpr
  refine ⟨_, okOr_ok.mpr (unhex_hex _), bind_ok.mpr ⟨_, okOr_ok.mpr kept, seq_ok.mpr ⟨ensure_ok.mpr ⟨rfl, rfl, rfl, rfl⟩, ?_⟩⟩⟩
  apply bind_ok.mpr
  refine ⟨row.id, mapError_ok.mpr (parseId_showId kind row.minted), bind_ok.mpr ⟨row.created * 1000, ?_, rfl⟩⟩
  show okOr (fromUnixTimestampNanos (row.position.createdAt.tdiv 1000 * 1000)) invalidCursor = _
  rw [position_micros]
  exact okOr_ok.mpr current

/-- A text that is taken holds a record of exactly this project, collection and filter. -/
theorem decode_scope {text : String} {before : Option Position}
    (taken : decode readJson (some text) project kind sandbox = .ok before) :
    ∃ bytes cursor, stripPrefix "v1.".toList text.toList >>= unhex = some bytes ∧ readJson bytes = some cursor ∧
      cursor.project = project ∧ cursor.kind = kind ∧ cursor.sandbox = sandbox := by
  obtain ⟨position, taken, _⟩ := map_ok.mp taken
  obtain ⟨_, taken⟩ := seq_ok.mp taken
  obtain ⟨digits, stripped, taken⟩ := bind_ok.mp taken
  obtain ⟨bytes, unhexed, taken⟩ := bind_ok.mp taken
  obtain ⟨cursor, read, taken⟩ := bind_ok.mp taken
  obtain ⟨exact_, _⟩ := seq_ok.mp taken
  obtain ⟨_, owner, collection, filter⟩ := ensure_ok.mp exact_
  refine ⟨bytes, cursor, ?_, okOr_ok.mp read, owner, collection, filter⟩
  rw [okOr_ok.mp stripped]
  exact okOr_ok.mp unhexed

/-- A cursor that was made for one project, collection and filter is taken for no other. -/
theorem cursor_scope (kept : Keeps readJson project kind sandbox row) {project' : ProjectId} {kind' : Kind}
    {sandbox' : Option SandboxId} {before : Option Position}
    (taken : decode readJson (some (cursorOf row.position project kind sandbox).text) project' kind' sandbox' = .ok before) :
    project' = project ∧ kind' = kind ∧ sandbox' = sandbox := by
  obtain ⟨bytes, cursor, digits, read, owner, collection, filter⟩ := decode_scope taken
  rw [text_digits] at digits
  have same : unhex (hex (cursorOf row.position project kind sandbox).bytes) = some bytes := digits
  rw [unhex_hex] at same
  cases same
  have kept : readJson (cursorOf row.position project kind sandbox).bytes = some (cursorOf row.position project kind sandbox) := kept
  rw [kept] at read
  cases read
  exact ⟨owner.symm, collection.symm, filter.symm⟩

end Cursors

/-! ### Following the cursors -/

/-- The rows that a caller has seen, and the cursor that it follows next. -/
abbrev Seen := List Row × Option String

/-- One more page; the `n`th call meets the collection as it is then. -/
def follow (serve : ℕ → Option String → Except Api.Problem (List Row × Option String)) (n : ℕ) (seen : Seen) :
    Except Api.Problem (Seen × Bool) := do
  let found ← serve n seen.2
  pure ((seen.1 ++ found.1, found.2), found.2.isNone)

def listAll (serve : ℕ → Option String → Except Api.Problem (List Row × Option String)) (fuel : ℕ) :
    Option (Except Api.Problem (Seen × ℕ)) :=
  Turns.loop (follow serve) fuel 0 ([], none)

section Following
variable {readJson : List UInt8 → Option Cursor} {project : ProjectId} {kind : Kind} {sandbox : Option SandboxId}
  {serve : ℕ → Option String → Except Api.Problem (List Row × Option String)} {rows : ℕ → List Row} {size : ℕ}

/-- Each call decodes its cursor, fetches the page after it and encodes the next cursor. -/
def Serves (readJson : List UInt8 → Option Cursor) (project : ProjectId) (kind : Kind) (sandbox : Option SandboxId)
    (size : ℕ) (rows : ℕ → List Row) (serve : ℕ → Option String → Except Api.Problem (List Row × Option String)) : Prop :=
  ∀ n cursor before, decode readJson cursor project kind sandbox = .ok before →
    serve n cursor = (encode (page (after (rows n) before size) size).next project kind sandbox).map
      fun next => ((page (after (rows n) before size) size).items, next)

/-- The collection keeps its rows while it is listed, and gets only newer ones. -/
structure Growing (rows : ℕ → List Row) : Prop where
  distinct : ∀ n, ((rows n).map Row.id).Nodup
  newer : ∀ n, Keyset.Newer Row.key (rows 0) (rows n)

/-- What is served after a part of the rows: the rows that follow it. -/
theorem served_part (serves : Serves readJson project kind sandbox size rows serve) {n : ℕ} {cursor : Option String}
    {before : Option Position} (decoded : decode readJson cursor project kind sandbox = .ok before) {rest : List Row}
    (found : after (rows n) before size = rest.take (size + 1)) :
    serve n cursor = .ok (rest.take size,
      if size < rest.length then
        (rest.take size).getLast?.map fun row => (cursorOf row.position project kind sandbox).text
      else none) := by
  rw [serves n cursor before decoded, found, page_take]
  dsimp only
  by_cases more : size < rest.length
  · rw [if_pos more, if_pos more]
    cases last : (rest.take size).getLast? with
    | none => rfl
    | some row =>
      rw [Option.map_some, Option.map_some, encode_row]
      rfl
  · rw [if_neg more, if_neg more]
    rfl

/-- From any row on, following the cursors brings the rows below it, in order and once. -/
theorem follow_rest (serves : Serves readJson project kind sandbox size rows serve) (some_ : 1 ≤ size)
    (growing : Growing rows) (kept : ∀ row ∈ rows 0, Keeps readJson project kind sandbox row) {fuel n : ℕ}
    {front rest : List Row} {x : Row} (ordered : Keyset.Descending Row.key (front ++ x :: rest))
    (same : ∀ r, r ∈ front ++ x :: rest ↔ r ∈ rows 0) (enough : rest.length < fuel) :
    ∃ m, Turns.loop (follow serve) fuel n (front ++ [x], some (cursorOf x.position project kind sandbox).text) =
      some (.ok ((front ++ x :: rest, none), m)) := by
  induction fuel generalizing n front x rest with
  | zero => omega
  | succ fuel ih =>
    have x_mem : x ∈ rows 0 := (same x).mp (List.mem_append_right _ List.mem_cons_self)
    have found : after (rows n) (some x.position) size = rest.take (size + 1) := by
      unfold after
      rw [Option.map_some, position_key]
      exact Keyset.fetch_after (keys_nodup (growing.distinct n)) (growing.newer n) ordered same
    have served := served_part serves (decode_row (kept x x_mem)) found
    by_cases more : size < rest.length
    · obtain ⟨before, y, last⟩ : ∃ before y, rest.take size = before ++ [y] := by
        have length : 0 < (rest.take size).length := by
          rw [List.length_take]
          omega
        exact ⟨_, _, (List.dropLast_append_getLast (List.ne_nil_of_length_pos length)).symm⟩
      have whole : front ++ x :: rest = (front ++ x :: before) ++ y :: rest.drop size := by
        have parts := List.take_append_drop size rest
        rw [last] at parts
        calc front ++ x :: rest = front ++ x :: (before ++ [y] ++ rest.drop size) := by rw [parts]
          _ = _ := by simp
      have next : follow serve n (front ++ [x], some (cursorOf x.position project kind sandbox).text) =
          .ok (((front ++ x :: before) ++ [y], some (cursorOf y.position project kind sandbox).text), false) := by
        apply bind_ok.mpr
        refine ⟨_, served, ?_⟩
        rw [if_pos more, last, List.getLast?_concat]
        show Except.ok _ = _
        simp
      rw [Turns.loop_next next, whole]
      rw [whole] at ordered same
      exact ih ordered same (by rw [List.length_drop]; omega)
    · have last : follow serve n (front ++ [x], some (cursorOf x.position project kind sandbox).text) =
          .ok ((front ++ x :: rest, none), true) := by
        apply bind_ok.mpr
        refine ⟨_, served, ?_⟩
        rw [if_neg more, List.take_of_length_le (by omega)]
        show Except.ok _ = _
        simp
      exact ⟨n + 1, Turns.loop_last last⟩

/-- Following the cursors from the first page brings every row once, newest first, and ends. -/
theorem follow_all (serves : Serves readJson project kind sandbox size rows serve) (some_ : 1 ≤ size)
    (growing : Growing rows) (kept : ∀ row ∈ rows 0, Keeps readJson project kind sandbox row) :
    ∃ all, Keyset.Descending Row.key all ∧ (∀ r, r ∈ all ↔ r ∈ rows 0) ∧
      ∀ fuel, all.length < fuel → ∃ m, listAll serve fuel = some (.ok ((all, none), m)) := by
  have ordered := Keyset.descending_sorted (keys_nodup (growing.distinct 0))
  refine ⟨Keyset.descending Row.key (rows 0), ordered, fun r => Keyset.mem_descending, ?_⟩
  have same : ∀ r, r ∈ Keyset.descending Row.key (rows 0) ↔ r ∈ rows 0 := fun r => Keyset.mem_descending
  generalize all_ : Keyset.descending Row.key (rows 0) = all at ordered same ⊢
  intro fuel enough
  have found : after (rows 0) none size = all.take (size + 1) := by
    rw [← all_]
    exact Keyset.fetch_first _
  have served := @served_part readJson project kind sandbox serve rows size serves 0 none none rfl all found
  obtain ⟨fuel, rfl⟩ : ∃ more, fuel = more + 1 := ⟨fuel - 1, by omega⟩
  unfold listAll
  by_cases more : size < all.length
  · obtain ⟨before, y, last⟩ : ∃ before y, all.take size = before ++ [y] := by
      have length : 0 < (all.take size).length := by
        rw [List.length_take]
        omega
      exact ⟨_, _, (List.dropLast_append_getLast (List.ne_nil_of_length_pos length)).symm⟩
    have whole : all = before ++ y :: all.drop size := by
      have parts := List.take_append_drop size all
      rw [last, List.append_assoc] at parts
      exact parts.symm
    have next : follow serve 0 ([], none) = .ok ((before ++ [y], some (cursorOf y.position project kind sandbox).text), false) := by
      apply bind_ok.mpr
      refine ⟨_, served, ?_⟩
      rw [if_pos more, last, List.getLast?_concat]
      rfl
    rw [Turns.loop_next next]
    rw [whole] at ordered same
    obtain ⟨m, ended⟩ := @follow_rest _ _ _ _ _ _ _ serves some_ growing kept fuel 1 before _ y ordered same
      (by rw [List.length_drop]; omega)
    rw [← whole] at ended
    exact ⟨m, ended⟩
  · have last : follow serve 0 ([], none) = .ok ((all, none), true) := by
      apply bind_ok.mpr
      refine ⟨_, served, ?_⟩
      rw [if_neg more, List.take_of_length_le (by omega)]
      rfl
    exact ⟨1, Turns.loop_last last⟩

end Following

/-! ### Both collections -/

section Handlers
variable {readJson : List UInt8 → Option Cursor} {caller : ProjectId} {size : Option ℕ}

def Store.listedSandboxes (self : Store) (caller : ProjectId) : List Row := self.sandboxes.filter fun r => r.project = caller

def Store.listedOperations (self : Store) (caller : ProjectId) (sandbox : Option SandboxId) : List Row :=
  self.operations.filter fun r => r.project = caller ∧ ∀ s ∈ sandbox, r.sandbox = s

theorem limit_ok (bounds : 1 ≤ size.getD 50 ∧ size.getD 50 ≤ 100) : limit size = .ok (size.getD 50) :=
  seq_ok.mpr ⟨ensure_ok.mpr bounds, rfl⟩

theorem sandboxes_serves (bounds : 1 ≤ size.getD 50 ∧ size.getD 50 ≤ 100) (stores : ℕ → Store) :
    Serves readJson caller .sandboxes none (size.getD 50) (fun n => (stores n).listedSandboxes caller)
      fun n => sandboxes readJson (stores n) caller size := by
  intro n cursor before decoded
  show (limit size >>= _) = _
  rw [limit_ok bounds]
  show (decode readJson cursor caller .sandboxes none >>= _) = _
  rw [decoded]
  show (encode _ caller .sandboxes none >>= _) = (encode _ caller .sandboxes none).map _
  unfold listSandboxes Store.listedSandboxes
  cases encode (page (after ((stores n).sandboxes.filter fun r => r.project = caller) before (size.getD 50))
    (size.getD 50)).next caller .sandboxes none with
  | error _ => rfl
  | ok _ => rfl

/-- The pages of operations under every filter. -/
def operationsListed (readJson : List UInt8 → Option Cursor) (store : Store) (caller : ProjectId) (sandbox : Option SandboxId)
    (size : ℕ) (cursor : Option String) : Except Api.Problem (List Row × Option String) := do
  let before ← decode readJson cursor caller .operations sandbox
  operationsPage store caller sandbox size before

theorem operations_serves {sandbox : Option SandboxId} (n : ℕ) (stores : ℕ → Store) :
    Serves readJson caller .operations sandbox n (fun n => (stores n).listedOperations caller sandbox)
      fun i => operationsListed readJson (stores i) caller sandbox n := by
  intro i cursor before decoded
  show (decode readJson cursor caller .operations sandbox >>= _) = _
  rw [decoded]
  show (encode _ caller .operations sandbox >>= _) = (encode _ caller .operations sandbox).map _
  unfold listOperations Store.listedOperations
  cases encode (page (after ((stores i).operations.filter fun r => r.project = caller ∧ ∀ s ∈ sandbox, r.sandbox = s)
    before n) n).next caller .operations sandbox with
  | error _ => rfl
  | ok _ => rfl

/-- A filter that names no sandbox of the project is refused; under every other the pages are served. -/
theorem operations_filter (bounds : 1 ≤ size.getD 50 ∧ size.getD 50 ≤ 100) (sandbox : Option SandboxId) (store : Store)
    (cursor : Option String) :
    operations readJson store caller sandbox size cursor =
      if ∀ s ∈ sandbox, store.sandboxForProject caller s = true then
        operationsListed readJson store caller sandbox (size.getD 50) cursor
      else (decode readJson cursor caller .operations sandbox).bind fun _ => .error .notFound := by
  unfold operations operationsListed
  rw [limit_ok bounds]
  cases decode readJson cursor caller .operations sandbox with
  | error _ =>
    split
    next => rfl
    next => rfl
  | ok before =>
    split
    next found => exact seq_of_ok (ensure_ok.mpr found)
    next missing =>
      show (ensure _ _ >>= fun _ => _) = _
      rw [ensure, if_neg missing]
      rfl

/-- A caller that follows the cursors of a collection gets every row that was there when it began, once and newest
first, and comes to an end, also while newer rows come in; and a cursor is taken only for the project, the
collection and the filter that it names. -/
theorem lists_once (readJson : List UInt8 → Option Cursor) (stores : ℕ → Store) (caller : ProjectId) (size : Option ℕ)
    (bounds : 1 ≤ size.getD 50 ∧ size.getD 50 ≤ 100) :
    (Growing (fun n => (stores n).listedSandboxes caller) →
      (∀ row ∈ (stores 0).listedSandboxes caller, Keeps readJson caller .sandboxes none row) →
      ∃ all, Keyset.Descending Row.key all ∧ (∀ r, r ∈ all ↔ r ∈ (stores 0).sandboxes ∧ r.project = caller) ∧
        ∀ fuel, all.length < fuel →
          ∃ m, listAll (fun n => sandboxes readJson (stores n) caller size) fuel = some (.ok ((all, none), m))) ∧
    (∀ sandbox, Growing (fun n => (stores n).listedOperations caller sandbox) →
      (∀ row ∈ (stores 0).listedOperations caller sandbox, Keeps readJson caller .operations sandbox row) →
      ∃ all, Keyset.Descending Row.key all ∧
        (∀ r, r ∈ all ↔ r ∈ (stores 0).operations ∧ r.project = caller ∧ ∀ s ∈ sandbox, r.sandbox = s) ∧
        (∀ fuel, all.length < fuel → ∃ m, listAll (fun n => operationsListed readJson (stores n) caller sandbox (size.getD 50))
          fuel = some (.ok ((all, none), m))) ∧
        ((∀ n, ∀ s ∈ sandbox, (stores n).sandboxForProject caller s = true) → ∀ fuel, all.length < fuel →
          ∃ m, listAll (fun n => operations readJson (stores n) caller sandbox size) fuel = some (.ok ((all, none), m)))) ∧
    (∀ project kind sandbox row, Keeps readJson project kind sandbox row → ∀ project' kind' sandbox' before,
      decode readJson (some (cursorOf row.position project kind sandbox).text) project' kind' sandbox' = .ok before →
      project' = project ∧ kind' = kind ∧ sandbox' = sandbox) ∧
    ∀ text project kind sandbox before, decode readJson (some text) project kind sandbox = .ok before →
      ∃ bytes cursor, stripPrefix "v1.".toList text.toList >>= unhex = some bytes ∧ readJson bytes = some cursor ∧
        cursor.project = project ∧ cursor.kind = kind ∧ cursor.sandbox = sandbox := by
  refine ⟨?_, ?_, ?_, ?_⟩
  · intro growing kept
    obtain ⟨all, ordered, same, ended⟩ := follow_all (sandboxes_serves bounds stores) bounds.1 growing kept
    refine ⟨all, ordered, ?_, ended⟩
    intro r
    rw [same, Store.listedSandboxes, List.mem_filter, decide_eq_true_iff]
  · intro sandbox growing kept
    obtain ⟨all, ordered, same, ended⟩ := follow_all (operations_serves (size.getD 50) stores) bounds.1 growing kept
    refine ⟨all, ordered, ?_, ended, ?_⟩
    · intro r
      rw [same, Store.listedOperations, List.mem_filter, decide_eq_true_iff]
    · intro found
      have handled : (fun n => operations readJson (stores n) caller sandbox size) =
          fun n => operationsListed readJson (stores n) caller sandbox (size.getD 50) := by
        funext n cursor
        rw [operations_filter bounds, if_pos (found n)]
      rw [handled]
      exact ended
  · intro project kind sandbox row kept project' kind' sandbox' before taken
    exact cursor_scope kept taken
  · intro text project kind sandbox before taken
    exact decode_scope taken

end Handlers

/-! ### Three rows -/

section ListSample

def sampleProject : ProjectId := ⟨0x01900000000070008000000000000009#128⟩
def sampleRow (id : Uuid) (minted : id.getVersionNum = 7) (created : ℤ)
    (dated : -377705116800000000 ≤ created ∧ created < 253402300800000000) : Row :=
  { id, project := sampleProject, sandbox := ⟨id⟩, created, minted, dated }

/-- Two rows of the same microsecond, and a newer one that comes in after the first page. -/
def first : Row := sampleRow 0x01900000000070008000000000000001#128 (by decide) 1000 (by decide)
def second : Row := sampleRow 0x01900000000070008000000000000002#128 (by decide) 1000 (by decide)
def late : Row := sampleRow 0x01900000000070008000000000000003#128 (by decide) 2000 (by decide)

def sampleStores (n : ℕ) : Store := ⟨if n = 0 then [first, second] else [first, late, second], []⟩

def sampleRead (bytes : List UInt8) : Option Cursor :=
  [cursorOf first.position sampleProject .sandboxes none, cursorOf second.position sampleProject .sandboxes none].find?
    fun cursor => cursor.bytes = bytes

theorem sample_growing : Growing fun n => (sampleStores n).listedSandboxes sampleProject := by
  have start : (sampleStores 0).listedSandboxes sampleProject = [first, second] := rfl
  have later : ∀ n, (sampleStores (n + 1)).listedSandboxes sampleProject = [first, late, second] := fun _ => rfl
  constructor
  · intro n
    cases n with
    | zero =>
      rw [start]
      decide
    | succ n =>
      rw [later]
      decide
  · intro n
    cases n with
    | zero => exact .refl _
    | succ n =>
      rw [start, later]
      exact ⟨by decide, by decide⟩

theorem sample_listed : ∃ all, Keyset.Descending Row.key all ∧
    (∀ r, r ∈ all ↔ r ∈ (sampleStores 0).sandboxes ∧ r.project = sampleProject) ∧
    ∀ fuel, all.length < fuel →
      ∃ m, listAll (fun n => sandboxes sampleRead (sampleStores n) sampleProject (some 1)) fuel = some (.ok ((all, none), m)) := by
  have kept : ∀ row ∈ [first, second], Keeps sampleRead sampleProject .sandboxes none row := by
    unfold Keeps
    decide +kernel
  exact (lists_once sampleRead sampleStores sampleProject (some 1) (by decide)).1 sample_growing kept

end ListSample

end HudsonSandbox.Collections
