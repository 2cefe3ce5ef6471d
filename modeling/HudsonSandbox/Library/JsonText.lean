import Mathlib.Data.List.Basic
import Mathlib.Data.UInt

/-!
# JSON texts

The grammar of JSON (RFC 8259) over UTF-16 code units: which texts are JSON texts, and of which document. A
document keeps its numbers as they stand in the text and its strings as the code units that they denote.
-/

namespace HudsonSandbox.JsonText

abbrev Text := List UInt16

/-- The code unit of an ASCII character. -/
def unit (c : Char) : UInt16 := UInt16.ofNat c.toNat

def text (s : String) : Text := s.toList.map unit

def isHigh (c : UInt16) : Bool := decide (0xd800 ≤ c) && decide (c ≤ 0xdbff)
def isLow (c : UInt16) : Bool := decide (0xdc00 ≤ c) && decide (c ≤ 0xdfff)

/-- No surrogate stands alone. -/
def isWellFormed : Text → Bool
  | [] => true
  | c :: rest =>
    if isHigh c then
      match rest with
      | [] => false
      | d :: rest => isLow d && isWellFormed rest
    else !isLow c && isWellFormed rest

/-! ### Documents -/

inductive Document (ν : Type) where
  | null
  | bool (b : Bool)
  | number (n : ν)
  | string (s : Text)
  | array (items : List (Document ν))
  | object (entries : List (Text × Document ν))

variable {ν μ : Type}

namespace Document

/-- Induction with a hypothesis for every item and every entry. -/
theorem ind {P : Document ν → Prop} (null : P .null) (bool : ∀ b, P (.bool b)) (number : ∀ n, P (.number n))
    (string : ∀ s, P (.string s)) (array : ∀ items, (∀ v ∈ items, P v) → P (.array items))
    (object : ∀ entries, (∀ entry ∈ entries, P (Prod.snd entry)) → P (.object entries)) (v : Document ν) : P v :=
  @Document.rec ν P (fun items => ∀ v ∈ items, P v) (fun entries => ∀ entry ∈ entries, P (Prod.snd entry))
    (fun entry => P entry.2) null bool number string array object
    (fun _ member => absurd member List.not_mem_nil)
    (fun _ _ head tail => List.forall_mem_cons.mpr ⟨head, tail⟩)
    (fun _ member => absurd member List.not_mem_nil)
    (fun _ _ head tail => List.forall_mem_cons.mpr ⟨head, tail⟩)
    (fun _ _ value => value) v

mutual
/-- The same document with other numbers. -/
def map (f : ν → μ) : Document ν → Document μ
  | .null => .null
  | .bool b => .bool b
  | .number n => .number (f n)
  | .string s => .string s
  | .array items => .array (mapItems f items)
  | .object entries => .object (mapEntries f entries)

def mapItems (f : ν → μ) : List (Document ν) → List (Document μ)
  | [] => []
  | v :: rest => map f v :: mapItems f rest

def mapEntries (f : ν → μ) : List (Text × Document ν) → List (Text × Document μ)
  | [] => []
  | (key, v) :: rest => (key, map f v) :: mapEntries f rest
end

theorem mapItems_eq (f : ν → μ) (items : List (Document ν)) : mapItems f items = items.map (map f) := by
  induction items with
  | nil => rfl
  | cons v rest ih => rw [mapItems, ih, List.map_cons]

theorem mapEntries_eq (f : ν → μ) (entries : List (Text × Document ν)) :
    mapEntries f entries = entries.map fun entry => (entry.1, map f entry.2) := by
  induction entries with
  | nil => rfl
  | cons entry rest ih =>
    cases entry
    rw [mapEntries, ih, List.map_cons]

@[simp] theorem map_array (f : ν → μ) (items : List (Document ν)) : map f (.array items) = .array (items.map (map f)) := by
  rw [map, mapItems_eq]

@[simp] theorem map_object (f : ν → μ) (entries : List (Text × Document ν)) :
    map f (.object entries) = .object (entries.map fun entry => (entry.1, map f entry.2)) := by
  rw [map, mapEntries_eq]

/-! ### What lies in a document -/

/-- A value lies at a depth in a document, whose root is at depth zero. -/
inductive Lies : ℕ → Document ν → Document ν → Prop
  | root {v : Document ν} : Lies 0 v v
  | item {n : ℕ} {w v : Document ν} {items : List (Document ν)} (member : v ∈ items) (within : Lies n w v) :
    Lies (n + 1) w (.array items)
  | entry {n : ℕ} {w v : Document ν} {entries : List (Text × Document ν)} {key : Text} (member : (key, v) ∈ entries)
    (within : Lies n w v) : Lies (n + 1) w (.object entries)

/-- Something holds of all values in a document at their depths, if the document itself is at `depth`. -/
def Everywhere (P : ℕ → Document ν → Prop) (depth : ℕ) (v : Document ν) : Prop := ∀ n w, Lies n w v → P (depth + n) w

variable {P : ℕ → Document ν → Prop} {depth : ℕ}

theorem Everywhere.here {v : Document ν} (everywhere : Everywhere P depth v) : P depth v := everywhere 0 v .root

/-- What holds no other value. -/
def IsLeaf : Document ν → Prop
  | .array _ => False
  | .object _ => False
  | _ => True

theorem everywhere_leaf {v : Document ν} (leaf : v.IsLeaf) : Everywhere P depth v ↔ P depth v := by
  refine ⟨Everywhere.here, ?_⟩
  intro here n w lies
  cases lies with
  | root => exact here
  | item member within => exact absurd leaf id
  | entry member within => exact absurd leaf id

theorem everywhere_array {items : List (Document ν)} :
    Everywhere P depth (.array items) ↔ P depth (.array items) ∧ ∀ v ∈ items, Everywhere P (depth + 1) v := by
  constructor
  · intro everywhere
    refine ⟨everywhere.here, ?_⟩
    intro v member n w lies
    have below := everywhere (n + 1) w (.item member lies)
    rw [Nat.add_assoc, Nat.add_comm 1]
    exact below
  · intro parts n w lies
    obtain ⟨here, below⟩ := parts
    cases lies with
    | root => exact here
    | @item n _ v _ member within =>
      have there := below v member n w within
      rw [Nat.add_assoc, Nat.add_comm 1] at there
      exact there

theorem everywhere_object {entries : List (Text × Document ν)} :
    Everywhere P depth (.object entries) ↔
      P depth (.object entries) ∧ ∀ entry ∈ entries, Everywhere P (depth + 1) entry.2 := by
  constructor
  · intro everywhere
    refine ⟨everywhere.here, ?_⟩
    intro entry member n w lies
    have below := everywhere (n + 1) w (.entry member lies)
    rw [Nat.add_assoc, Nat.add_comm 1]
    exact below
  · intro parts n w lies
    obtain ⟨here, below⟩ := parts
    cases lies with
    | root => exact here
    | @entry n _ v _ key member within =>
      have there := below (key, v) member n w within
      rw [Nat.add_assoc, Nat.add_comm 1] at there
      exact there

theorem Lies.map (f : ν → μ) {n : ℕ} {w v : Document ν} (lies : Lies n w v) : Lies n (w.map f) (v.map f) := by
  induction lies with
  | root => exact .root
  | item member _ ih =>
    rw [map_array]
    exact .item (List.mem_map_of_mem member) ih
  | @entry n w v entries key member _ ih =>
    rw [map_object]
    exact .entry (List.mem_map_of_mem (f := fun entry : Text × Document ν => (entry.1, entry.2.map f)) member) ih

/-- What lies in a mapped document was mapped. -/
theorem lies_map {f : ν → μ} {n : ℕ} {w : Document μ} {v : Document ν} (lies : Lies n w (v.map f)) :
    ∃ u, Lies n u v ∧ w = u.map f := by
  induction v using Document.ind generalizing n with
  | null =>
    cases lies
    exact ⟨_, .root, rfl⟩
  | bool b =>
    cases lies
    exact ⟨_, .root, rfl⟩
  | number m =>
    cases lies
    exact ⟨_, .root, rfl⟩
  | string s =>
    cases lies
    exact ⟨_, .root, rfl⟩
  | array items ih =>
    rw [map_array] at lies
    cases lies with
    | root => exact ⟨_, .root, (map_array f items).symm⟩
    | item member within =>
      obtain ⟨v, here, rfl⟩ := List.mem_map.mp member
      obtain ⟨u, lies, same⟩ := ih v here within
      exact ⟨u, .item here lies, same⟩
  | object entries ih =>
    rw [map_object] at lies
    cases lies with
    | root => exact ⟨_, .root, (map_object f entries).symm⟩
    | entry member within =>
      obtain ⟨entry, here, same⟩ := List.mem_map.mp member
      cases same
      obtain ⟨u, lies, same⟩ := ih entry here within
      exact ⟨u, .entry here lies, same⟩

/-- Lists are equal where their parts have images that only they have. -/
theorem eq_of_map {α β : Type} {f : α → β} {as bs : List α} (one : ∀ a ∈ as, ∀ b, f a = f b → a = b)
    (same : as.map f = bs.map f) : as = bs := by
  induction as generalizing bs with
  | nil =>
    cases bs with
    | nil => rfl
    | cons b bs => cases same
  | cons a as ih =>
    cases bs with
    | nil => cases same
    | cons b bs =>
      obtain ⟨head, tail⟩ := List.cons.inj same
      rw [one a List.mem_cons_self b head, ih (fun a member => one a (List.mem_cons_of_mem _ member)) tail]

theorem map_injective {f : ν → μ} (injective : ∀ m n, f m = f n → m = n) (v w : Document ν) (same : v.map f = w.map f) : v = w := by
  induction v using Document.ind generalizing w with
  | null =>
    cases w <;> simp [map] at same
    rfl
  | bool b =>
    cases w <;> simp [map] at same
    rw [same]
  | number m =>
    cases w <;> simp [map] at same
    rw [injective _ _ same]
  | string s =>
    cases w <;> simp [map] at same
    rw [same]
  | array items ih =>
    cases w with
    | array others =>
      rw [map_array, map_array] at same
      rw [eq_of_map ih (Document.array.inj same)]
    | _ => simp [map] at same
  | object entries ih =>
    cases w with
    | object others =>
      rw [map_object, map_object] at same
      have one : ∀ entry ∈ entries, ∀ other : Text × Document ν, (entry.1, entry.2.map f) = (other.1, other.2.map f) → entry = other := by
        intro entry member other same
        obtain ⟨keys, values⟩ := Prod.mk.inj same
        exact Prod.ext keys (ih entry member _ values)
      rw [eq_of_map one (Document.object.inj same)]
    | _ => simp [map] at same

/-! ### Equality up to the order of keys -/

mutual
/-- Objects are maps, which have no order. -/
def Same : Document ν → Document ν → Prop
  | .null, .null => True
  | .bool a, .bool b => a = b
  | .number m, .number n => m = n
  | .string s, .string t => s = t
  | .array items, .array others => SameItems items others
  | .object entries, .object others => ∃ reordered, List.Perm reordered others ∧ SameEntries entries reordered
  | _, _ => False

def SameItems : List (Document ν) → List (Document ν) → Prop
  | [], [] => True
  | v :: rest, w :: others => Same v w ∧ SameItems rest others
  | _, _ => False

def SameEntries : List (Text × Document ν) → List (Text × Document ν) → Prop
  | [], [] => True
  | (key, v) :: rest, (key', w) :: others => key = key' ∧ Same v w ∧ SameEntries rest others
  | _, _ => False
end

end Document

/-! ### The grammar -/

def isSpace (c : UInt16) : Bool := c = unit ' ' || c = unit '\t' || c = unit '\r' || c = unit '\n'

def Space (w : Text) : Prop := ∀ c ∈ w, isSpace c = true

def isDigit (c : UInt16) : Bool := decide (unit '0' ≤ c) && decide (c ≤ unit '9')

/-- One digit or more. -/
def Digits (ds : Text) : Prop := ds ≠ [] ∧ ∀ c ∈ ds, isDigit c = true

def Minus (t : Text) : Prop := t = [] ∨ t = [unit '-']

def IntPart (t : Text) : Prop :=
  t = [unit '0'] ∨ ∃ d ds, t = d :: ds ∧ d ≠ unit '0' ∧ isDigit d = true ∧ ∀ c ∈ ds, isDigit c = true

def FracPart (t : Text) : Prop := t = [] ∨ ∃ ds, t = unit '.' :: ds ∧ Digits ds

def ExpPart (t : Text) : Prop :=
  t = [] ∨ ∃ e sign ds, t = e :: (sign ++ ds) ∧ (e = unit 'e' ∨ e = unit 'E') ∧
    (sign = [] ∨ sign = [unit '+'] ∨ sign = [unit '-']) ∧ Digits ds

def NumberToken (t : Text) : Prop :=
  ∃ minus int frac exp, t = minus ++ (int ++ (frac ++ exp)) ∧ Minus minus ∧ IntPart int ∧ FracPart frac ∧ ExpPart exp

/-- A number without a fraction and an exponent. -/
def IntegerToken (t : Text) : Prop := ∃ minus int, t = minus ++ int ∧ Minus minus ∧ IntPart int

/-- The characters behind a backslash and what they stand for. -/
def escapes : List (UInt16 × UInt16) :=
  [(unit '"', unit '"'), (unit '\\', unit '\\'), (unit '/', unit '/'), (unit 'b', 8), (unit 'f', 12), (unit 'n', 10),
    (unit 'r', 13), (unit 't', 9)]

def hexDigit (c : UInt16) : Option UInt16 :=
  if isDigit c then some (c - unit '0')
  else if unit 'a' ≤ c ∧ c ≤ unit 'f' then some (c - unit 'a' + 10)
  else if unit 'A' ≤ c ∧ c ≤ unit 'F' then some (c - unit 'A' + 10)
  else none

/-- The code unit that four hexadecimal digits name. -/
def hex4 (a b c d : UInt16) : Option UInt16 :=
  match hexDigit a, hexDigit b, hexDigit c, hexDigit d with
  | some a, some b, some c, some d => some (a * 4096 + b * 256 + c * 16 + d)
  | _, _, _, _ => none

/-- What stands between the quotation marks of a string, and what it denotes. -/
inductive Chars : Text → Text → Prop
  | nil : Chars [] []
  | plain {c : UInt16} {rest value : Text} (visible : 0x20 ≤ c) (quote : c ≠ unit '"') (backslash : c ≠ unit '\\')
    (later : Chars rest value) : Chars (c :: rest) (c :: value)
  | escape {e c : UInt16} {rest value : Text} (named : (e, c) ∈ escapes) (later : Chars rest value) :
    Chars (unit '\\' :: e :: rest) (c :: value)
  | unicode {a b c d w : UInt16} {rest value : Text} (named : hex4 a b c d = some w) (later : Chars rest value) :
    Chars (unit '\\' :: unit 'u' :: a :: b :: c :: d :: rest) (w :: value)

def StringToken (t : Text) (value : Text) : Prop := ∃ body, t = unit '"' :: (body ++ [unit '"']) ∧ Chars body value

mutual
/-- The text of a value, without the space around it. -/
def Reads : Document Text → Text → Prop
  | .null, t => t = text "null"
  | .bool true, t => t = text "true"
  | .bool false, t => t = text "false"
  | .number n, t => t = n ∧ NumberToken n
  | .string s, t => StringToken t s
  | .array items, t => ∃ body, t = unit '[' :: (body ++ [unit ']']) ∧ ReadsItems items body
  | .object entries, t => ∃ body, t = unit '\x7b' :: (body ++ [unit '\x7d']) ∧ ReadsEntries entries body

/-- `ws`, or `ws value ws` followed by more of it behind commas. -/
def ReadsItems : List (Document Text) → Text → Prop
  | [], t => Space t
  | v :: rest, t => ∃ w a w' more, t = w ++ (a ++ (w' ++ more)) ∧ Space w ∧ Reads v a ∧ Space w' ∧ ReadsMoreItems rest more

def ReadsMoreItems : List (Document Text) → Text → Prop
  | [], t => t = []
  | v :: rest, t => ∃ w a w' more, t = unit ',' :: (w ++ (a ++ (w' ++ more))) ∧
    Space w ∧ Reads v a ∧ Space w' ∧ ReadsMoreItems rest more

def ReadsEntries : List (Text × Document Text) → Text → Prop
  | [], t => Space t
  | (key, v) :: rest, t => ∃ w k x y a w' more, t = w ++ (k ++ (x ++ unit ':' :: (y ++ (a ++ (w' ++ more))))) ∧
    Space w ∧ StringToken k key ∧ Space x ∧ Space y ∧ Reads v a ∧ Space w' ∧ ReadsMoreEntries rest more

def ReadsMoreEntries : List (Text × Document Text) → Text → Prop
  | [], t => t = []
  | (key, v) :: rest, t => ∃ w k x y a w' more, t = unit ',' :: (w ++ (k ++ (x ++ unit ':' :: (y ++ (a ++ (w' ++ more)))))) ∧
    Space w ∧ StringToken k key ∧ Space x ∧ Space y ∧ Reads v a ∧ Space w' ∧ ReadsMoreEntries rest more
end

/-- A JSON text: one value, with white space allowed around it. -/
def IsText (v : Document Text) (t : Text) : Prop := ∃ w a w', t = w ++ (a ++ w') ∧ Space w ∧ Reads v a ∧ Space w'

end HudsonSandbox.JsonText
