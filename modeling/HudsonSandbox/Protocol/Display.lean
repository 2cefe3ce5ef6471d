import HudsonSandbox.Library.Checked
import HudsonSandbox.Library.Delimited
import HudsonSandbox.Protocol.Ids

/-!
# Rendered identities

An identity is rendered in a fixed width of printable text, and two renderings of one resource
are equal only for the same identity. Reading accepts exactly the renderings of the identities of
version 7.
-/

namespace HudsonSandbox

namespace Uuid
open Text

theorem digitChar_injective : ∀ a b : Fin 16, Nat.digitChar a = Nat.digitChar b → a = b := by
  decide

theorem digitChar_plain : ∀ a : Fin 16, ' ' ≤ Nat.digitChar a ∧ Nat.digitChar a ≤ '~' ∧
    Nat.digitChar a ≠ '-' := by
  decide

theorem hexDigits_length (id : Uuid) : id.hexDigits.length = 32 := by simp [hexDigits]

theorem mem_hexDigits {id : Uuid} {c : Char} (within : c ∈ id.hexDigits) :
    ∃ a : Fin 16, c = Nat.digitChar a := by
  obtain ⟨i, _, rfl⟩ := List.mem_map.mp within
  exact ⟨⟨_, (id.extractLsb' (124 - 4 * i) 4).isLt⟩, rfl⟩

theorem hexDigits_injective : Function.Injective hexDigits := by
  intro a b same
  have nibbles : ∀ i < 32, a.extractLsb' (124 - 4 * i) 4 = b.extractLsb' (124 - 4 * i) 4 := by
    intro i below
    have digit := List.map_inj_left.mp same i (List.mem_range.mpr below)
    have equal := digitChar_injective ⟨_, (a.extractLsb' (124 - 4 * i) 4).isLt⟩
      ⟨_, (b.extractLsb' (124 - 4 * i) 4).isLt⟩ digit
    exact BitVec.eq_of_toNat_eq (congrArg Fin.val equal)
  apply BitVec.eq_of_getLsbD_eq
  intro k below
  -- bit `k` is bit `k % 4` of digit `31 - k / 4`
  have bit := congrArg (fun nibble : BitVec 4 => nibble.getLsbD (k % 4)) (nibbles (31 - k / 4) (by omega))
  have place : 124 - 4 * (31 - k / 4) + k % 4 = k := by omega
  have small : k % 4 < 4 := by omega
  simpa [BitVec.getLsbD_extractLsb', small, place] using bit

theorem hyphenated_length (id : Uuid) : id.hyphenated.length = 36 := by
  have whole := id.hexDigits_length
  simp [hyphenated, whole]

theorem hyphenated_filter (id : Uuid) : (id.hyphenated.filter fun c => c ≠ '-') = id.hexDigits := by
  have plain : ∀ c ∈ id.hexDigits, c ≠ '-' := by
    intro c within
    obtain ⟨a, rfl⟩ := mem_hexDigits within
    exact (digitChar_plain a).2.2
  have part : ∀ n k, ((id.hexDigits.drop n).take k).filter (fun c => c ≠ '-') =
      (id.hexDigits.drop n).take k := by
    intro n k
    apply List.filter_eq_self.mpr
    intro c within
    exact decide_eq_true (plain c (List.mem_of_mem_drop (List.mem_of_mem_take within)))
  have last : (id.hexDigits.drop 20).filter (fun c => c ≠ '-') = id.hexDigits.drop 20 := by
    apply List.filter_eq_self.mpr
    intro c within
    exact decide_eq_true (plain c (List.mem_of_mem_drop within))
  have first := part 0 8
  rw [List.drop_zero] at first
  have joined : id.hexDigits.take 8 ++ ((id.hexDigits.drop 8).take 4 ++
      ((id.hexDigits.drop 12).take 4 ++ ((id.hexDigits.drop 16).take 4 ++ id.hexDigits.drop 20))) =
      id.hexDigits := by
    have split : ∀ n k, (id.hexDigits.drop n).take k ++ id.hexDigits.drop (n + k) =
        id.hexDigits.drop n := by
      intro n k
      rw [← List.drop_drop, List.take_append_drop]
    rw [split 16 4, split 12 4, split 8 4, List.take_append_drop]
  simp only [hyphenated, List.filter_append, List.filter_cons, first, part, last, ne_eq,
    not_true_eq_false, decide_false, Bool.false_eq_true, if_false, List.append_assoc]
  exact joined

theorem hyphenated_injective : Function.Injective hyphenated := by
  intro a b same
  apply hexDigits_injective
  rw [← hyphenated_filter a, ← hyphenated_filter b, same]

theorem hyphenated_printable (id : Uuid) : Printable id.hyphenated := by
  have digits : Printable id.hexDigits := by
    intro c within
    obtain ⟨a, rfl⟩ := mem_hexDigits within
    exact ⟨(digitChar_plain a).1, (digitChar_plain a).2.1⟩
  have part : ∀ n k, Printable ((id.hexDigits.drop n).take k) :=
    fun n k c within => digits c (List.mem_of_mem_drop (List.mem_of_mem_take within))
  have first : Printable (id.hexDigits.take 8) := fun c within => digits c (List.mem_of_mem_take within)
  have last : Printable (id.hexDigits.drop 20) := fun c within => digits c (List.mem_of_mem_drop within)
  have dash : ' ' ≤ '-' ∧ '-' ≤ '~' := by decide
  exact (((first.append ((part 8 4).cons dash)).append ((part 12 4).cons dash)).append
    ((part 16 4).cons dash)).append (last.cons dash)

end Uuid

namespace TypedId
open Text
variable {resource : Resource}

theorem display_length (id : TypedId resource) :
    id.display.length = resource.PREFIX.length + 37 := by
  simp [display, id.uuid.hyphenated_length]

theorem display_delimited : Delimited (@display resource) :=
  .of_length fun a b => by rw [display_length, display_length]

theorem display_injective : Function.Injective (@display resource) := by
  intro a b same
  have uuids : a.uuid.hyphenated = b.uuid.hyphenated :=
    (List.cons.inj (List.append_cancel_left same)).2
  exact uuid_injective (Uuid.hyphenated_injective uuids)

theorem display_printable (id : TypedId resource) : Printable id.display := by
  have title : Printable resource.PREFIX := by cases resource <;> decide
  exact title.append (id.uuid.hyphenated_printable.cons (by decide))

end TypedId

/-! ### Reading -/

namespace Uuid

/-- The value of a lowercase hexadecimal digit. -/
def digitValue (c : Char) : ℕ := if c.isDigit then c.toNat - 48 else c.toNat - 87

def ofDigits (digits : List Char) : Uuid :=
  BitVec.ofNat 128 (digits.foldl (fun n c => n * 16 + digitValue c) 0)

/-- The identity of a canonical rendering. A text that some other spelling is read from is compared with
the canonical one and refused, like a text that cannot be read at all. -/
def canonical (text : List Char) : Option Uuid :=
  let id := ofDigits (text.filter fun c => c ≠ '-')
  if id.hyphenated = text then some id else none

theorem digitValue_digitChar : ∀ a : Fin 16, digitValue (Nat.digitChar a) = a := by
  decide

/-- The first digits are the highest bits. -/
theorem foldl_digits (id : Uuid) {k : ℕ} (within : k ≤ 32) :
    ((List.range k).map fun i => Nat.digitChar ((id.extractLsb' (124 - 4 * i) 4).toNat)).foldl
      (fun n c => n * 16 + digitValue c) 0 = id.toNat / 2 ^ (128 - 4 * k) := by
  induction k with
  | zero => exact (Nat.div_eq_of_lt id.isLt).symm
  | succ k ih =>
    have digit := digitValue_digitChar ⟨_, (id.extractLsb' (124 - 4 * k) 4).isLt⟩
    have low : (id.extractLsb' (124 - 4 * k) 4).toNat = id.toNat / 2 ^ (124 - 4 * k) % 16 := by
      rw [BitVec.extractLsb'_toNat, Nat.shiftRight_eq_div_pow]
    have place : 128 - 4 * k = 124 - 4 * k + 4 := by omega
    have high : id.toNat / 2 ^ (128 - 4 * k) = id.toNat / 2 ^ (124 - 4 * k) / 16 := by
      rw [place, pow_add, Nat.div_div_eq_div_mul]
      rfl
    have next : 128 - 4 * (k + 1) = 124 - 4 * k := by omega
    rw [List.range_succ, List.map_append, List.foldl_append, ih (by omega), next, high]
    show id.toNat / 2 ^ (124 - 4 * k) / 16 * 16 + digitValue _ = _
    rw [digit]
    show id.toNat / 2 ^ (124 - 4 * k) / 16 * 16 + (id.extractLsb' (124 - 4 * k) 4).toNat = _
    rw [low]
    omega

theorem ofDigits_hexDigits (id : Uuid) : ofDigits id.hexDigits = id := by
  have whole := foldl_digits id (Nat.le_refl 32)
  rw [show 128 - 4 * 32 = 0 from rfl, pow_zero, Nat.div_one] at whole
  unfold ofDigits hexDigits
  rw [whole]
  exact BitVec.ofNat_toNat 128 id |>.trans (BitVec.setWidth_eq id)

theorem canonical_some {text : List Char} {id : Uuid} : canonical text = some id ↔ text = id.hyphenated := by
  unfold canonical
  constructor
  · intro read
    dsimp only at read
    split at read
    next same =>
      rw [← Option.some.inj read]
      exact same.symm
    next => cases read
  · intro same
    rw [same, hyphenated_filter, ofDigits_hexDigits]
    exact if_pos rfl

end Uuid

/-- The parts of a text around the first occurrence of a character. -/
def splitOnce (separator : Char) : List Char → Option (List Char × List Char)
  | [] => none
  | c :: rest => if c = separator then some ([], rest) else (splitOnce separator rest).map (Prod.map (c :: ·) id)

theorem splitOnce_append {separator : Char} {first : List Char} (apart : separator ∉ first) (rest : List Char) :
    splitOnce separator (first ++ separator :: rest) = some (first, rest) := by
  induction first with
  | nil => exact if_pos rfl
  | cons c first ih =>
    have different : c ≠ separator := (List.ne_of_not_mem_cons apart).symm
    have later := ih (List.not_mem_of_not_mem_cons apart)
    rw [List.cons_append, splitOnce, if_neg different, later]
    rfl

theorem splitOnce_eq {separator : Char} {text first rest : List Char}
    (parts : splitOnce separator text = some (first, rest)) : text = first ++ separator :: rest := by
  induction text generalizing first with
  | nil => cases parts
  | cons c text ih =>
    rw [splitOnce] at parts
    split at parts
    next same =>
      cases parts
      rw [same]
      rfl
    next =>
      obtain ⟨tail, found, same⟩ := Option.map_eq_some_iff.mp parts
      cases same
      rw [ih found]
      rfl

theorem splitOnce_none {separator : Char} {text : List Char} (whole : splitOnce separator text = none) :
    separator ∉ text := by
  intro member
  induction text with
  | nil => cases member
  | cons c text ih =>
    rw [splitOnce] at whole
    split at whole
    next => cases whole
    next different =>
      rcases List.mem_cons.mp member with same | later
      · exact different same.symm
      · exact ih (Option.map_eq_none_iff.mp whole) later

theorem splitOnce_apart {separator : Char} {text first rest : List Char}
    (parts : splitOnce separator text = some (first, rest)) : separator ∉ first := by
  induction text generalizing first with
  | nil => cases parts
  | cons c text ih =>
    rw [splitOnce] at parts
    split at parts
    next =>
      cases parts
      exact List.not_mem_nil
    next different =>
      obtain ⟨tail, found, same⟩ := Option.map_eq_some_iff.mp parts
      cases same
      intro member
      rcases List.mem_cons.mp member with same | later
      · exact different same.symm
      · exact ih found later

inductive IdParseError where
  | wrongPrefix (expected found : String)
  | missingSeparator
  | malformedUuid (text : String)
  | wrongUuidVersion (version : ℕ)
  deriving DecidableEq, Repr

def IdParseError.message : IdParseError → String
  | .wrongPrefix expected found => "expected prefix `" ++ expected ++ "_`, found `" ++ found ++ "`"
  | .missingSeparator => "missing `_` separator between prefix and UUID"
  | .malformedUuid text => "`" ++ text ++ "` is not a canonical lowercase UUID"
  | .wrongUuidVersion version => "expected a UUIDv7, found version " ++ toString version

open Checked in
/-- The shared shape: the prefix, then the canonical rendering of an identity of version 7. -/
def parsePrefixed (value expected : List Char) : Except IdParseError Uuid := do
  let parts ← okOr (splitOnce '_' value) .missingSeparator
  ensure (parts.1 = expected) (.wrongPrefix (String.ofList expected) (String.ofList parts.1))
  let id ← okOr (Uuid.canonical parts.2) (.malformedUuid (String.ofList parts.2))
  ensure (id.getVersionNum = 7) (.wrongUuidVersion id.getVersionNum)
  pure id

namespace TypedId
open Checked
variable {resource : Resource}

def toString (id : TypedId resource) : String := String.ofList id.display

def parse (text : String) : Except IdParseError (TypedId resource) :=
  (parsePrefixed text.toList resource.PREFIX).map TypedId.mk

/-- Exactly the rendering of an identity of version 7 is read. -/
theorem parse_ok {text : String} {id : TypedId resource} :
    parse text = .ok id ↔ text = id.toString ∧ id.uuid.getVersionNum = 7 := by
  have plain : '_' ∉ resource.PREFIX := by cases resource <;> decide
  unfold parse parsePrefixed
  constructor
  · intro read
    obtain ⟨uuid, read, same⟩ := map_ok.mp read
    obtain ⟨parts, split, read⟩ := bind_ok.mp read
    obtain ⟨title, read⟩ := seq_ok.mp read
    obtain ⟨found, canonical, read⟩ := bind_ok.mp read
    obtain ⟨version, read⟩ := seq_ok.mp read
    have found_ : found = uuid := pure_ok.mp read
    subst found_ same
    have text_ := splitOnce_eq (okOr_ok.mp split)
    rw [ensure_ok.mp title, Uuid.canonical_some.mp (okOr_ok.mp canonical)] at text_
    refine ⟨?_, ensure_ok.mp version⟩
    show text = String.ofList (resource.PREFIX ++ '_' :: found.hyphenated)
    rw [← text_, String.ofList_toList]
  · rintro ⟨same, version⟩
    have split : splitOnce '_' text.toList = some (resource.PREFIX, id.uuid.hyphenated) := by
      rw [same]
      show splitOnce '_' (String.ofList (resource.PREFIX ++ '_' :: id.uuid.hyphenated)).toList = _
      rw [String.toList_ofList]
      exact splitOnce_append plain _
    apply map_ok.mpr
    refine ⟨id.uuid, ?_, rfl⟩
    apply bind_ok.mpr
    refine ⟨_, okOr_ok.mpr split, seq_ok.mpr ⟨ensure_ok.mpr rfl, ?_⟩⟩
    apply bind_ok.mpr
    exact ⟨id.uuid, okOr_ok.mpr (Uuid.canonical_some.mpr rfl), seq_ok.mpr ⟨ensure_ok.mpr version, rfl⟩⟩

theorem toString_size (id : TypedId resource) : id.toString.utf8ByteSize = resource.PREFIX.length + 37 := by
  unfold toString
  rw [Text.utf8ByteSize_printable id.display_printable, display_length]

theorem toString_ne (id : TypedId resource) : id.toString ≠ "" := by
  intro empty
  have size := id.toString_size
  rw [empty] at size
  exact absurd size (by simp)

end TypedId
end HudsonSandbox
