import HudsonSandbox.Library.Delimited
import Mathlib.Data.List.Sort

/-!
# JSON values and their texts

Values over any type of numbers, equality up to the order of keys, and the texts of strings: an
escaped character shows where it ends, and so does a string literal.
-/

namespace HudsonSandbox.Json

inductive Value (ν : Type) where
  | null
  | bool (b : Bool)
  | number (n : ν)
  | string (text : List Char)
  | array (items : List (Value ν))
  | object (entries : List (List Char × Value ν))

variable {ν : Type}

namespace Value

/-- Induction with a hypothesis for every item and every entry. -/
theorem ind {P : Value ν → Prop} (null : P .null) (bool : ∀ b, P (.bool b)) (number : ∀ n, P (.number n))
    (string : ∀ text, P (.string text)) (array : ∀ items, (∀ v ∈ items, P v) → P (.array items))
    (object : ∀ entries, (∀ entry ∈ entries, P (Prod.snd entry)) → P (.object entries)) (v : Value ν) : P v :=
  @Value.rec ν P (fun items => ∀ v ∈ items, P v) (fun entries => ∀ entry ∈ entries, P (Prod.snd entry))
    (fun entry => P entry.2) null bool number string array object
    (fun _ member => absurd member List.not_mem_nil)
    (fun _ _ head tail => List.forall_mem_cons.mpr ⟨head, tail⟩)
    (fun _ member => absurd member List.not_mem_nil)
    (fun _ _ head tail => List.forall_mem_cons.mpr ⟨head, tail⟩)
    (fun _ _ value => value) v

/-! ### Maps -/

mutual
/-- Every object is a map: no key stands twice in it. -/
def Unique : Value ν → Prop
  | .array items => UniqueItems items
  | .object entries => (entries.map Prod.fst).Nodup ∧ UniqueEntries entries
  | _ => True

def UniqueItems : List (Value ν) → Prop
  | [] => True
  | v :: rest => Unique v ∧ UniqueItems rest

def UniqueEntries : List (List Char × Value ν) → Prop
  | [] => True
  | (_, v) :: rest => Unique v ∧ UniqueEntries rest
end

mutual
/-- Equality of maps, which have no order, over an equality of numbers. -/
def Same (same : ν → ν → Prop) : Value ν → Value ν → Prop
  | .null, .null => True
  | .bool a, .bool b => a = b
  | .number m, .number n => same m n
  | .string a, .string b => a = b
  | .array items, .array others => SameItems same items others
  | .object entries, .object others => entries.length = others.length ∧ SameEntries same entries others
  | _, _ => False

def SameItems (same : ν → ν → Prop) : List (Value ν) → List (Value ν) → Prop
  | [], [] => True
  | v :: rest, w :: others => Same same v w ∧ SameItems same rest others
  | _, _ => False

/-- Every entry has its like under the same key among the others. -/
def SameEntries (same : ν → ν → Prop) : List (List Char × Value ν) → List (List Char × Value ν) → Prop
  | [], _ => True
  | (key, v) :: rest, others => (∃ w, (key, w) ∈ others ∧ Same same v w) ∧ SameEntries same rest others
end

theorem uniqueItems_iff {items : List (Value ν)} : UniqueItems items ↔ ∀ v ∈ items, Unique v := by
  induction items with
  | nil => simp [UniqueItems]
  | cons v rest ih => simp [UniqueItems, ih]

theorem uniqueEntries_iff {entries : List (List Char × Value ν)} :
    UniqueEntries entries ↔ ∀ entry ∈ entries, Unique entry.2 := by
  induction entries with
  | nil => simp [UniqueEntries]
  | cons entry rest ih => simp [UniqueEntries, ih]

theorem sameItems_iff {same : ν → ν → Prop} {items others : List (Value ν)} :
    SameItems same items others ↔ List.Forall₂ (Same same) items others := by
  induction items generalizing others with
  | nil => cases others <;> simp [SameItems]
  | cons v rest ih => cases others <;> simp [SameItems, ih]

theorem sameEntries_iff {same : ν → ν → Prop} {entries others : List (List Char × Value ν)} :
    SameEntries same entries others ↔
      ∀ entry ∈ entries, ∃ w, (entry.1, w) ∈ others ∧ Same same entry.2 w := by
  induction entries with
  | nil => simp [SameEntries]
  | cons entry rest ih => simp [SameEntries, ih]

/-- A coarser equality of numbers makes a coarser equality of values. -/
theorem Same.mono {fine coarse : ν → ν → Prop} (weaker : ∀ m n, fine m n → coarse m n) (v : Value ν) :
    ∀ w, v.Same fine w → v.Same coarse w := by
  induction v using Value.ind with
  | null =>
    intro w same
    cases w <;> exact same
  | bool b =>
    intro w same
    cases w <;> exact same
  | number n =>
    intro w same
    cases w with
    | number m => exact weaker n m same
    | _ => cases same
  | string text =>
    intro w same
    cases w <;> exact same
  | array items ih =>
    intro w same
    cases w with
    | array others =>
      have together := sameItems_iff.mp same
      apply sameItems_iff.mpr
      apply (List.forall₂_iff_get.mpr ⟨together.length_eq, _⟩)
      intro i inside inside'
      exact ih _ (List.get_mem _ _) _ (List.Forall₂.get together inside inside')
    | _ => cases same
  | object entries ih =>
    intro w same
    cases w with
    | object others =>
      refine ⟨same.1, sameEntries_iff.mpr ?_⟩
      intro entry member
      obtain ⟨w, there, like⟩ := sameEntries_iff.mp same.2 entry member
      exact ⟨w, there, ih entry member w like⟩
    | _ => cases same

end Value
/-- What stands in one of two lists that go together has its partner in the other. -/
theorem forall₂_mem {α β : Type*} {R : α → β → Prop} {as : List α} {bs : List β} (together : List.Forall₂ R as bs)
    {a : α} (member : a ∈ as) : ∃ b ∈ bs, R a b := by
  induction together with
  | nil => cases member
  | @cons a' b as bs related _ ih =>
    obtain rfl | member := List.mem_cons.mp member
    · exact ⟨b, List.mem_cons_self, related⟩
    · obtain ⟨b', there, related⟩ := ih member
      exact ⟨b', List.mem_cons_of_mem _ there, related⟩

theorem map_eq_of_forall₂ {α β γ : Type*} {R : α → β → Prop} {f : α → γ} {g : β → γ} {as : List α} {bs : List β}
    (together : List.Forall₂ R as bs) (each : ∀ a ∈ as, ∀ b ∈ bs, R a b → f a = g b) : as.map f = bs.map g := by
  induction together with
  | nil => rfl
  | @cons a b as bs related _ ih =>
    have head := each a List.mem_cons_self b List.mem_cons_self related
    have tail := ih fun a' member b' there =>
      each a' (List.mem_cons_of_mem _ member) b' (List.mem_cons_of_mem _ there)
    rw [List.map_cons, List.map_cons, head, tail]

/-! ### Strings -/

/-- The characters that have an escape of two. -/
def shortEscape (c : Char) : Option Char :=
  if c = '"' then some '"'
  else if c = '\\' then some '\\'
  else if c = '\x08' then some 'b'
  else if c = '\x0c' then some 'f'
  else if c = '\n' then some 'n'
  else if c = '\r' then some 'r'
  else if c = '\t' then some 't'
  else none

/-- Quotes, backslashes and control characters are escaped. -/
def escapeChar (c : Char) : List Char :=
  (shortEscape c).elim
    (if c.toNat < 0x20 then
      ['\\', 'u', '0', '0', Nat.digitChar (c.toNat / 16), Nat.digitChar (c.toNat % 16)]
    else [c])
    fun e => ['\\', e]

def escape (text : List Char) : List Char := text.flatMap escapeChar

def literal (text : List Char) : List Char := '"' :: escape text ++ ['"']

def unescape (e : Char) : Option Char :=
  if e = '"' then some '"'
  else if e = '\\' then some '\\'
  else if e = 'b' then some '\x08'
  else if e = 'f' then some '\x0c'
  else if e = 'n' then some '\n'
  else if e = 'r' then some '\r'
  else if e = 't' then some '\t'
  else none

theorem unescape_shortEscape {c e : Char} (escaped : shortEscape c = some e) : unescape e = some c := by
  unfold shortEscape at escaped
  split_ifs at escaped <;> cases escaped <;> simp_all [unescape]

theorem shortEscape_backslash : shortEscape '\\' = some '\\' := by decide

/-- The three ways a character is written. -/
theorem escapeChar_cases (c : Char) :
    (∃ e, shortEscape c = some e ∧ escapeChar c = ['\\', e]) ∨
      (c.toNat < 0x20 ∧ escapeChar c =
        ['\\', 'u', '0', '0', Nat.digitChar (c.toNat / 16), Nat.digitChar (c.toNat % 16)]) ∨
      (c ≠ '"' ∧ c ≠ '\\' ∧ escapeChar c = [c]) := by
  unfold escapeChar
  cases short : shortEscape c with
  | some e => exact .inl ⟨e, rfl, rfl⟩
  | none =>
    by_cases control : c.toNat < 0x20
    · exact .inr (.inl ⟨control, if_pos control⟩)
    · refine .inr (.inr ⟨?_, ?_, if_neg control⟩)
      · rintro rfl
        cases short
      · rintro rfl
        cases short

theorem hexDigit_injective : ∀ m < 16, ∀ n < 16, Nat.digitChar m = Nat.digitChar n → m = n := by decide

theorem escapeChar_starts (c : Char) : ∃ d rest, escapeChar c = d :: rest ∧ d ≠ '"' := by
  obtain ⟨e, _, written⟩ | ⟨_, written⟩ | ⟨quote, _, written⟩ := escapeChar_cases c
  · exact ⟨_, _, written, by decide⟩
  · exact ⟨_, _, written, by decide⟩
  · exact ⟨_, _, written, quote⟩

theorem escapeChar_append {c d : Char} {r s : List Char} (equal : escapeChar c ++ r = escapeChar d ++ s) :
    c = d ∧ r = s := by
  obtain ⟨e, short, written⟩ | ⟨small, written⟩ | ⟨_, backslash, written⟩ := escapeChar_cases c <;>
  obtain ⟨e', short', written'⟩ | ⟨small', written'⟩ | ⟨_, backslash', written'⟩ := escapeChar_cases d <;>
  rw [written, written'] at equal <;>
  simp only [List.cons_append, List.nil_append, List.cons.injEq, true_and] at equal
  · obtain ⟨rfl, rest⟩ := equal
    have same := (unescape_shortEscape short).symm.trans (unescape_shortEscape short')
    exact ⟨Option.some.inj same, rest⟩
  · obtain ⟨rfl, _⟩ := equal
    cases unescape_shortEscape short
  · exact absurd equal.1.symm backslash'
  · obtain ⟨rfl, _⟩ := equal
    cases unescape_shortEscape short'
  · obtain ⟨high, low, rest⟩ := equal
    have high := hexDigit_injective _ (by omega) _ (by omega) high
    have low := hexDigit_injective _ (by omega) _ (by omega) low
    exact ⟨Char.toNat_inj.mp (by omega), rest⟩
  · exact absurd equal.1.symm backslash'
  · exact absurd equal.1 backslash
  · exact absurd equal.1 backslash
  · exact equal

theorem escape_append {a b r s : List Char} (equal : escape a ++ '"' :: r = escape b ++ '"' :: s) :
    a = b ∧ r = s := by
  induction a generalizing b with
  | nil =>
    cases b with
    | nil => exact ⟨rfl, (List.cons.inj equal).2⟩
    | cons d b =>
      obtain ⟨first, rest, written, apart⟩ := escapeChar_starts d
      simp only [escape, List.flatMap_cons, written, List.cons_append] at equal
      exact absurd (List.cons.inj equal).1.symm apart
  | cons c a ih =>
    cases b with
    | nil =>
      obtain ⟨first, rest, written, apart⟩ := escapeChar_starts c
      simp only [escape, List.flatMap_cons, written, List.cons_append] at equal
      exact absurd (List.cons.inj equal).1 apart
    | cons d b =>
      simp only [escape, List.flatMap_cons, List.append_assoc] at equal ih
      obtain ⟨rfl, tail⟩ := escapeChar_append equal
      obtain ⟨rfl, rest⟩ := ih tail
      exact ⟨rfl, rest⟩

theorem literal_append {a b r s : List Char} (equal : literal a ++ r = literal b ++ s) : a = b ∧ r = s := by
  simp only [literal, List.cons_append, List.append_assoc, List.cons.injEq, true_and, List.nil_append] at equal
  exact escape_append equal

end HudsonSandbox.Json
