import HudsonSandbox.Library.Framed
import HudsonSandbox.Library.Json
import Mathlib.Data.List.Lex
import Mathlib.Data.UInt

/-!
# Request digests

The bytes that identify a request: its method, its target and its payload with the keys of every
object in order, each behind its length. They tell any two requests apart that are not the same up to
the order of keys.
-/

namespace HudsonSandbox.Idempotency
open Json Text Framed

/-! ### Numbers -/

/-- A finite `f64`, by its bits. -/
structure F64 where
  bits : BitVec 64
  finite : bits.extractLsb' 52 11 ≠ 0x7ff
  deriving DecidableEq

/-- Either of the two zeros. -/
def F64.IsZero (f : F64) : Prop := f.bits.extractLsb' 0 63 = 0

instance (f : F64) : Decidable f.IsZero := inferInstanceAs (Decidable (_ = _))

/-- `f64`'s `==`, without the values that are not finite. -/
def F64.Eq (a b : F64) : Prop := a = b ∨ a.IsZero ∧ b.IsZero

instance (a b : F64) : Decidable (a.Eq b) := inferInstanceAs (Decidable (_ ∨ _))

/-- `serde_json`'s `Number`; a negative integer is counted from minus one down. -/
inductive Number where
  | posInt (n : UInt64)
  | negInt (n : Fin (2 ^ 63))
  | float (f : F64)
  deriving DecidableEq

/-- `Number`'s `==`. -/
def Number.Eq : Number → Number → Prop
  | .posInt m, .posInt n => m = n
  | .negInt m, .negInt n => m = n
  | .float f, .float g => f.Eq g
  | _, _ => False

/-- The characters a number may be written with. -/
def isNumeral (c : Char) : Bool := c.isDigit || c = '-' || c = '+' || c = '.' || c = 'e'

/-- What is used of the text that floats are printed with: it reads back as the very same float, and
is never the text of an integer. -/
structure FloatFormat where
  text : F64 → List Char
  injective : Function.Injective text
  numeral : ∀ f, ∀ c ∈ text f, isNumeral c = true
  fraction : ∀ f, '.' ∈ text f ∨ 'e' ∈ text f

variable {format : FloatFormat}

def Number.text (format : FloatFormat) : Number → List Char
  | .posInt n => decimal n.toNat
  | .negInt n => '-' :: decimal (n + 1)
  | .float f => format.text f

/-! ### The canonical text -/

/-- The bytes of a key, as they are compared. -/
def keyBytes (key : List Char) : List ℕ := (utf8 key).map UInt8.toNat

/-- Entries in the order of their keys. -/
def byKey {α : Type} (entries : List (List Char × α)) : List (List Char × α) :=
  entries.insertionSort fun a b => keyBytes a.1 ≤ keyBytes b.1

/-- An entry with its child written. -/
def member (entry : List Char × List Char) : List Char := literal entry.1 ++ ':' :: entry.2

mutual
def writeCanonical (format : FloatFormat) : Value Number → List Char
  | .object entries =>
    '\x7b' :: separated ((byKey (writeEntries format entries)).map member) ++ ['\x7d']
  | .array items => '[' :: separated (writeItems format items) ++ [']']
  | .null => "null".toList
  | .bool true => "true".toList
  | .bool false => "false".toList
  | .number n => n.text format
  | .string text => literal text

def writeItems (format : FloatFormat) : List (Value Number) → List (List Char)
  | [] => []
  | item :: rest => writeCanonical format item :: writeItems format rest

def writeEntries (format : FloatFormat) : List (List Char × Value Number) → List (List Char × List Char)
  | [] => []
  | (key, child) :: rest => (key, writeCanonical format child) :: writeEntries format rest
end

/-- A payload whose objects are maps. -/
def Payload : Type := { value : Value Number // value.Unique }

def Payload.bytes (format : FloatFormat) (payload : Payload) : List UInt8 :=
  utf8 (writeCanonical format payload.1)

/-- A request as it is digested. No allocation holds more bytes than a length can say. -/
structure Request (format : FloatFormat) where
  method : List Char
  target : List Char
  payload : Payload
  fits : ∀ part ∈ [utf8 method, utf8 target, payload.bytes format], part.length < 2 ^ 63

/-- What `RequestDigest::compute` feeds to the hash. -/
def Request.preimage (request : Request format) : List UInt8 :=
  [utf8 request.method, utf8 request.target, request.payload.bytes format].flatMap (frame 8)

/-! ### Order of keys -/

theorem keyBytes_injective : Function.Injective keyBytes := by
  intro a b same
  have bytes : Function.Injective UInt8.toNat := fun _ _ => UInt8.toNat_inj.mp
  exact utf8_injective (List.map_injective_iff.mpr bytes same)

theorem byKey_perm {α : Type} (entries : List (List Char × α)) : (byKey entries).Perm entries :=
  List.perm_insertionSort _ entries

theorem byKey_sorted {α : Type} (entries : List (List Char × α)) :
    (byKey entries).Pairwise fun a b => keyBytes a.1 ≤ keyBytes b.1 := by
  have total : Std.Total fun a b : List Char × α => keyBytes a.1 ≤ keyBytes b.1 :=
    ⟨fun a b => le_total (keyBytes a.1) (keyBytes b.1)⟩
  have transitive : IsTrans (List Char × α) fun a b => keyBytes a.1 ≤ keyBytes b.1 :=
    ⟨fun _ _ _ => le_trans⟩
  exact List.pairwise_insertionSort _ entries

/-- Where no key stands twice, the order of the entries is lost. -/
theorem byKey_eq {α : Type} {entries others : List (List Char × α)} (perm : entries.Perm others)
    (unique : (others.map Prod.fst).Nodup) : byKey entries = byKey others := by
  have both : (byKey entries).Perm (byKey others) :=
    (byKey_perm entries).trans (perm.trans (byKey_perm others).symm)
  apply both.eq_of_pairwise _ (byKey_sorted entries) (byKey_sorted others)
  intro a b here there low high
  have here : a ∈ others := perm.mem_iff.mp ((byKey_perm entries).mem_iff.mp here)
  have there : b ∈ others := (byKey_perm others).mem_iff.mp there
  have key : a.1 = b.1 := keyBytes_injective (le_antisymm low high)
  exact List.inj_on_of_nodup_map unique here there key

/-- Writing the children does not move the entries. -/
theorem byKey_map {α β : Type} (f : α → β) (entries : List (List Char × α)) :
    byKey (entries.map fun entry => (entry.1, f entry.2)) = (byKey entries).map fun entry => (entry.1, f entry.2) := by
  symm
  apply List.map_insertionSort
  intro a _ b _
  rfl

/-! ### Reading a canonical text -/

theorem writeItems_eq (items : List (Value Number)) : writeItems format items = items.map (writeCanonical format) := by
  induction items with
  | nil => rfl
  | cons item rest ih => simp [writeItems, ih]

theorem writeEntries_eq (entries : List (List Char × Value Number)) :
    writeEntries format entries = entries.map fun entry => (entry.1, writeCanonical format entry.2) := by
  induction entries with
  | nil => rfl
  | cons entry rest ih => simp [writeEntries, ih]

/-- An entry with its child to be written. -/
def writeEntry (format : FloatFormat) (entry : List Char × Value Number) : List Char :=
  literal entry.1 ++ ':' :: writeCanonical format entry.2

theorem writeCanonical_object (entries : List (List Char × Value Number)) :
    writeCanonical format (.object entries) =
      '\x7b' :: separated ((byKey entries).map (writeEntry format)) ++ ['\x7d'] := by
  rw [writeCanonical, writeEntries_eq, byKey_map, List.map_map]
  rfl

theorem writeCanonical_array (items : List (Value Number)) :
    writeCanonical format (.array items) = '[' :: separated (items.map (writeCanonical format)) ++ [']'] := by
  rw [writeCanonical, writeItems_eq]

/-- What follows a value: nothing, or a character that continues no number. -/
def Ends (rest : List Char) : Prop := ∀ c ∈ rest.head?, isNumeral c = false

theorem ends_cons {c : Char} {rest : List Char} (apart : isNumeral c = false) : Ends (c :: rest) := by
  simpa [Ends] using apart

theorem isNumeral_digit {c : Char} (digit : c.isDigit = true) : isNumeral c = true := by
  simp [isNumeral, digit]

theorem text_numeral (n : Number) : ∀ c ∈ n.text format, isNumeral c = true := by
  intro c within
  cases n with
  | posInt n => exact isNumeral_digit (decimal_digits c within)
  | negInt n =>
    obtain rfl | within := List.mem_cons.mp within
    · rfl
    · exact isNumeral_digit (decimal_digits c within)
  | float f => exact format.numeral f c within

/-- An integer is written without a point or an exponent. -/
theorem decimal_plain (n : ℕ) : '.' ∉ decimal n ∧ 'e' ∉ decimal n := by
  constructor
  · intro within
    cases decimal_digits _ within
  · intro within
    cases decimal_digits _ within

theorem decimal_no_sign (n : ℕ) : '-' ∉ decimal n := by
  intro within
  cases decimal_digits _ within

theorem text_injective : Function.Injective (Number.text format) := by
  intro m n same
  have floats : ∀ f, ('.' ∈ format.text f ∨ 'e' ∈ format.text f) := format.fraction
  cases m with
  | posInt m =>
    cases n with
    | posInt n => rw [UInt64.toNat_inj.mp (decimal_injective same)]
    | negInt n =>
      have sign : '-' ∈ decimal m.toNat := by
        rw [show decimal m.toNat = _ from same]
        exact List.mem_cons_self
      exact absurd sign (decimal_no_sign _)
    | float f =>
      have point := floats f
      rw [← show decimal m.toNat = format.text f from same] at point
      exact absurd point (by simp [decimal_plain])
  | negInt m =>
    cases n with
    | posInt n =>
      have sign : '-' ∈ decimal n.toNat := by
        rw [← show _ = decimal n.toNat from same]
        exact List.mem_cons_self
      exact absurd sign (decimal_no_sign _)
    | negInt n =>
      have next := decimal_injective (List.cons.inj same).2
      have value : m = n := by omega
      rw [value]
    | float f =>
      have point := floats f
      rw [← show '-' :: decimal (m + 1) = format.text f from same] at point
      exact absurd point (by simp [decimal_plain])
  | float f =>
    cases n with
    | posInt n =>
      have point := floats f
      rw [show format.text f = decimal n.toNat from same] at point
      exact absurd point (by simp [decimal_plain])
    | negInt n =>
      have point := floats f
      rw [show format.text f = '-' :: decimal (n + 1) from same] at point
      exact absurd point (by simp [decimal_plain])
    | float g => rw [format.injective same]

theorem text_starts (n : Number) : ∃ c rest, n.text format = c :: rest ∧ isNumeral c = true := by
  have nonempty : n.text format ≠ [] := by
    cases n with
    | posInt n => exact Nat.toDigits_ne_nil
    | negInt n => exact List.cons_ne_nil _ _
    | float f =>
      obtain within | within := format.fraction f
      · exact List.ne_nil_of_mem within
      · exact List.ne_nil_of_mem within
  obtain ⟨c, rest, split⟩ := List.exists_cons_of_ne_nil nonempty
  exact ⟨c, rest, split, text_numeral n c (by rw [split]; exact List.mem_cons_self)⟩

/-- The kind of a value, as its first character shows it. -/
inductive Kind where
  | null | bool | number | string | array | object
  deriving DecidableEq

def kind : Value Number → Kind
  | .null => .null
  | .bool _ => .bool
  | .number _ => .number
  | .string _ => .string
  | .array _ => .array
  | .object _ => .object

def kindOf (c : Char) : Kind :=
  if c = 'n' then .null
  else if c = 't' ∨ c = 'f' then .bool
  else if c = '"' then .string
  else if c = '[' then .array
  else if c = '\x7b' then .object
  else .number

theorem kindOf_numeral {c : Char} (numeral : isNumeral c = true) : kindOf c = .number := by
  have apart : ∀ d, isNumeral d = false → c ≠ d := by
    rintro d other rfl
    cases other.symm.trans numeral
  unfold kindOf
  rw [if_neg (apart 'n' rfl), if_neg (by simp [apart 't' rfl, apart 'f' rfl]), if_neg (apart '"' rfl),
    if_neg (apart '[' rfl), if_neg (apart '\x7b' rfl)]

theorem writeCanonical_starts (v : Value Number) :
    ∃ c rest, writeCanonical format v = c :: rest ∧ kindOf c = kind v := by
  cases v with
  | null => exact ⟨_, _, rfl, rfl⟩
  | bool b =>
    cases b with
    | true => exact ⟨_, _, rfl, rfl⟩
    | false => exact ⟨_, _, rfl, rfl⟩
  | number n =>
    obtain ⟨c, rest, split, numeral⟩ := @text_starts format n
    exact ⟨c, rest, split, kindOf_numeral numeral⟩
  | string text => exact ⟨_, _, rfl, rfl⟩
  | array items => exact ⟨_, _, writeCanonical_array items, rfl⟩
  | object entries => exact ⟨_, _, writeCanonical_object entries, rfl⟩

theorem kind_eq {v w : Value Number} {r s : List Char}
    (equal : writeCanonical format v ++ r = writeCanonical format w ++ s) : kind v = kind w := by
  obtain ⟨c, rest, first, shown⟩ := @writeCanonical_starts format v
  obtain ⟨d, others, second, shown'⟩ := @writeCanonical_starts format w
  rw [first, second] at equal
  rw [← shown, ← shown', (List.cons.inj equal).1]

/-- The value at the front of a text is known up to the order of its keys, and so is where it ends. -/
theorem writeCanonical_reads (v : Value Number) :
    ∀ w r s, Ends r → Ends s → writeCanonical format v ++ r = writeCanonical format w ++ s →
      v.Same Eq w ∧ r = s := by
  induction v using Value.ind with
  | null =>
    intro w r s _ _ equal
    have kinds := kind_eq equal
    cases w <;> cases kinds
    exact ⟨trivial, List.append_cancel_left equal⟩
  | bool b =>
    intro w r s _ _ equal
    have kinds := kind_eq equal
    cases w <;> cases kinds
    next c =>
      cases b <;> cases c
      · exact ⟨rfl, List.append_cancel_left equal⟩
      · cases (List.cons.inj equal).1
      · cases (List.cons.inj equal).1
      · exact ⟨rfl, List.append_cancel_left equal⟩
  | number n =>
    intro w r s ends ends' equal
    have kinds := kind_eq equal
    cases w <;> cases kinds
    next m =>
      obtain ⟨same, rest⟩ := span_append (text_numeral n) (text_numeral m) ends ends' equal
      exact ⟨text_injective same, rest⟩
  | string text =>
    intro w r s _ _ equal
    have kinds := kind_eq equal
    cases w <;> cases kinds
    exact literal_append equal
  | array items ih =>
    intro w r s _ _ equal
    have kinds := kind_eq equal
    cases w <;> cases kinds
    next others =>
      simp only [writeCanonical_array, List.cons_append, List.append_assoc, List.cons.injEq, true_and,
        List.nil_append] at equal
      have reads : ∀ a ∈ items, ∀ b ∈ others, ∀ r s, Ends r → Ends s →
          writeCanonical format a ++ r = writeCanonical format b ++ s → a.Same Eq b ∧ r = s := by
        intro a member b _
        exact ih a member b
      have starts : ∀ a, ∃ c rest, writeCanonical format a = c :: rest ∧ c ≠ ']' := by
        intro a
        obtain ⟨c, rest, split, shown⟩ := @writeCanonical_starts format a
        refine ⟨c, rest, split, ?_⟩
        rintro rfl
        cases a with
        | number n =>
          have within : ']' ∈ n.text format := by
            rw [show n.text format = _ from split]
            exact List.mem_cons_self
          cases text_numeral n _ within
        | null => cases shown
        | bool b => cases shown
        | string text => cases shown
        | array items => cases shown
        | object entries => cases shown
      obtain ⟨same, rest⟩ :=
        separated_reads (fun _ => ends_cons rfl) (fun _ => ends_cons rfl) (by decide) reads starts equal
      exact ⟨Value.sameItems_iff.mpr same, rest⟩
  | object entries ih =>
    intro w r s _ _ equal
    have kinds := kind_eq equal
    cases w <;> cases kinds
    next others =>
      simp only [writeCanonical_object, List.cons_append, List.append_assoc, List.cons.injEq, true_and,
        List.nil_append] at equal
      have reads : ∀ a ∈ byKey entries, ∀ b ∈ byKey others, ∀ r s, Ends r → Ends s →
          writeEntry format a ++ r = writeEntry format b ++ s → (a.1 = b.1 ∧ a.2.Same Eq b.2) ∧ r = s := by
        intro a member b _ r s ends ends' equal
        simp only [writeEntry, List.append_assoc, List.cons_append] at equal
        obtain ⟨key, child⟩ := literal_append equal
        have member : a ∈ entries := (byKey_perm entries).mem_iff.mp member
        obtain ⟨value, rest⟩ := ih a member b.2 r s ends ends' (List.cons.inj child).2
        exact ⟨⟨key, value⟩, rest⟩
      have starts : ∀ a, ∃ c rest, writeEntry format a = c :: rest ∧ c ≠ '\x7d' := by
        intro a
        exact ⟨_, _, rfl, by decide⟩
      obtain ⟨same, rest⟩ :=
        separated_reads (fun _ => ends_cons rfl) (fun _ => ends_cons rfl) (by decide) reads starts equal
      have sizes : entries.length = others.length := by
        rw [← (byKey_perm entries).length_eq, ← (byKey_perm others).length_eq]
        exact same.length_eq
      refine ⟨⟨sizes, Value.sameEntries_iff.mpr ?_⟩, rest⟩
      intro entry member
      have member : entry ∈ byKey entries := (byKey_perm entries).mem_iff.mpr member
      obtain ⟨other, there, key, value⟩ := forall₂_mem same member
      have there : other ∈ others := (byKey_perm others).mem_iff.mp there
      refine ⟨other.2, ?_, value⟩
      rw [key]
      exact there

/-! ### Writing equal maps -/

/-- Maps that are the same are written the same. -/
theorem writeCanonical_same (v : Value Number) :
    ∀ w, v.Unique → w.Unique → v.Same Eq w → writeCanonical format v = writeCanonical format w := by
  induction v using Value.ind with
  | null =>
    intro w _ _ same
    cases w <;> cases same
    rfl
  | bool b =>
    intro w _ _ same
    cases w <;> cases same
    rfl
  | number n =>
    intro w _ _ same
    cases w <;> cases same
    rfl
  | string text =>
    intro w _ _ same
    cases w <;> cases same
    rfl
  | array items ih =>
    intro w unique unique' same
    cases w with
    | array others =>
      have unique := Value.uniqueItems_iff.mp unique
      have unique' := Value.uniqueItems_iff.mp unique'
      have written : items.map (writeCanonical format) = others.map (writeCanonical format) := by
        apply map_eq_of_forall₂ (Value.sameItems_iff.mp same)
        intro v member w there like
        exact ih v member w (unique v member) (unique' w there) like
      rw [writeCanonical_array, writeCanonical_array, written]
    | _ => cases same
  | object entries ih =>
    intro w unique unique' same
    cases w with
    | object others =>
      obtain ⟨keys, children⟩ := unique
      obtain ⟨keys', children'⟩ := unique'
      obtain ⟨sizes, same⟩ := same
      have children := Value.uniqueEntries_iff.mp children
      have children' := Value.uniqueEntries_iff.mp children'
      have same := Value.sameEntries_iff.mp same
      let write := fun entry : List Char × Value Number => (entry.1, writeCanonical format entry.2)
      have within : entries.map write ⊆ others.map write := by
        intro written member
        obtain ⟨entry, listed, rfl⟩ := List.mem_map.mp member
        obtain ⟨w, there, like⟩ := same entry listed
        have child := ih entry listed w (children entry listed) (children' _ there) like
        refine List.mem_map.mpr ⟨_, there, ?_⟩
        show (entry.1, writeCanonical format w) = (entry.1, writeCanonical format entry.2)
        rw [child]
      have named : ∀ l : List (List Char × Value Number), (l.map write).map Prod.fst = l.map Prod.fst := by
        intro l
        rw [List.map_map]
        rfl
      have distinct : (entries.map write).Nodup := by
        apply List.Nodup.of_map Prod.fst
        rw [named]
        exact keys
      have perm : (entries.map write).Perm (others.map write) := by
        apply (List.subperm_of_subset distinct within).perm_of_length_le
        simp [sizes]
      have sorted := byKey_eq perm (by rw [named]; exact keys')
      rw [writeCanonical, writeCanonical, writeEntries_eq, writeEntries_eq, sorted]
    | _ => cases same

/-! ### Digests -/

/-- The same payload up to the order of keys; the two zeros of `f64` are two numbers. -/
def Payload.Same (a b : Payload) : Prop := a.1.Same (· = ·) b.1

/-- `serde_json`'s `==`. -/
def Payload.Eq (a b : Payload) : Prop := a.1.Same Number.Eq b.1

theorem bytes_same (a b : Payload) : a.bytes format = b.bytes format ↔ a.Same b := by
  constructor
  · intro equal
    have texts : writeCanonical format a.1 ++ [] = writeCanonical format b.1 ++ [] := by
      rw [utf8_injective equal]
    have ends : Ends [] := by simp [Ends]
    exact (writeCanonical_reads a.1 b.1 [] [] ends ends texts).1
  · intro same
    exact congrArg utf8 (writeCanonical_same a.1 b.1 a.2 b.2 same)

/-- The parts of a request are known from what is hashed of it. -/
theorem preimage_parts {a b : Request format} (equal : a.preimage = b.preimage) :
    a.method = b.method ∧ a.target = b.target ∧ a.payload.bytes format = b.payload.bytes format := by
  have short : ∀ {n : ℕ}, n < 2 ^ 63 → n < 256 ^ 8 := fun small => small.trans (by decide)
  have fits : ∀ part ∈ [utf8 a.method, utf8 a.target, a.payload.bytes format], part.length < 256 ^ 8 :=
    fun part member => short (a.fits part member)
  have fits' : ∀ part ∈ [utf8 b.method, utf8 b.target, b.payload.bytes format], part.length < 256 ^ 8 :=
    fun part member => short (b.fits part member)
  simp only [List.forall_mem_cons] at fits fits'
  simp only [Request.preimage, List.flatMap_cons, List.flatMap_nil] at equal
  obtain ⟨method, rest⟩ := frame_append fits.1 fits'.1 equal
  obtain ⟨target, rest⟩ := frame_append fits.2.1 fits'.2.1 rest
  obtain ⟨payload, _⟩ := frame_append fits.2.2.1 fits'.2.2.1 rest
  exact ⟨utf8_injective method, utf8_injective target, payload⟩

/-- The same payloads are equal. -/
theorem Payload.Same.eq {a b : Payload} (same : a.Same b) : a.Eq b := by
  apply Value.Same.mono _ a.1 b.1 same
  rintro m n rfl
  cases m with
  | posInt m => rfl
  | negInt m => rfl
  | float f => exact .inl rfl

/-- Equal bytes stand for the same payload, which is an equal one, and equal preimages for the same
request. -/
theorem digest_injective (format : FloatFormat) :
    (∀ a b : Payload, a.bytes format = b.bytes format ↔ a.Same b) ∧
      (∀ a b : Payload, a.Same b → a.Eq b) ∧
      ∀ a b : Request format, a.preimage = b.preimage ↔
        a.method = b.method ∧ a.target = b.target ∧ a.payload.Same b.payload := by
  refine ⟨bytes_same, fun _ _ same => same.eq, ?_⟩
  intro a b
  constructor
  · intro equal
    obtain ⟨method, target, payload⟩ := preimage_parts equal
    exact ⟨method, target, (bytes_same _ _).mp payload⟩
  · rintro ⟨method, target, payload⟩
    have payload : a.payload.bytes format = b.payload.bytes format := (bytes_same _ _).mpr payload
    unfold Request.preimage
    rw [method, target, payload]

section ZeroSample

theorem plain_injective {m n : ℕ} (small : m < 2 ^ 64) (small' : n < 2 ^ 64)
    (same : (if m < 2 ^ 63 then [] else ['-']) ++ (decimal (m % 2 ^ 63) ++ ['.', '0']) =
      (if n < 2 ^ 63 then [] else ['-']) ++ (decimal (n % 2 ^ 63) ++ ['.', '0'])) : m = n := by
  have low : ∀ {m n : ℕ}, decimal m ++ ['.', '0'] = decimal n ++ ['.', '0'] → m = n :=
    fun equal => decimal_injective (List.append_cancel_right equal)
  have unsigned : ∀ {m : ℕ} {rest : List Char}, decimal m ++ ['.', '0'] ≠ '-' :: rest := by
    intro m rest equal
    cases decimal_head (n := m) '-' (by rw [equal]; rfl)
  by_cases positive : m < 2 ^ 63
  · by_cases positive' : n < 2 ^ 63
    · rw [if_pos positive, if_pos positive'] at same
      have equal := low same
      omega
    · rw [if_pos positive, if_neg positive'] at same
      exact absurd same unsigned
  · by_cases positive' : n < 2 ^ 63
    · rw [if_neg positive, if_pos positive'] at same
      exact absurd same.symm unsigned
    · rw [if_neg positive, if_neg positive'] at same
      have equal := low (List.cons.inj same).2
      omega

/-- A printer that writes the two zeros as they are written. -/
def plain : FloatFormat where
  text f := (if f.bits.toNat < 2 ^ 63 then [] else ['-']) ++ (decimal (f.bits.toNat % 2 ^ 63) ++ ['.', '0'])
  injective := by
    rintro ⟨a, _⟩ ⟨b, _⟩ same
    have bits : a = b := BitVec.eq_of_toNat_eq (plain_injective a.isLt b.isLt same)
    subst bits
    rfl
  numeral := by
    intro f c within
    rcases List.mem_append.mp within with sign | within
    · split at sign
      · cases sign
      · rw [List.mem_singleton.mp sign]
        rfl
    rcases List.mem_append.mp within with digits | point
    · exact isNumeral_digit (decimal_digits c digits)
    · have point : c = '.' ∨ c = '0' := by simpa using point
      obtain rfl | rfl := point
      · rfl
      · rfl
  fraction := by
    intro f
    left
    simp

def zero : Payload := ⟨.number (.float ⟨0, by decide⟩), trivial⟩
def negativeZero : Payload := ⟨.number (.float ⟨BitVec.ofNat 64 (2 ^ 63), by decide⟩), trivial⟩

/-- The two zeros are equal, and their bytes are not. -/
theorem zeros_differ : zero.Eq negativeZero ∧ zero.bytes plain ≠ negativeZero.bytes plain := by
  constructor
  · show F64.Eq _ _
    decide
  · intro equal
    have texts : writeCanonical plain zero.1 = writeCanonical plain negativeZero.1 := utf8_injective equal
    exact absurd texts (by decide)

end ZeroSample

end HudsonSandbox.Idempotency
