import HudsonSandbox.Library.Text
import Mathlib.Algebra.Order.BigOperators.Group.List

/-!
# Renderings that show where they end

A rendering is delimited when two renderings that start equal texts are the same text, as long
as what follows cannot continue a number. Records and lists of delimited renderings are
delimited again, so a compact rendering is read in one way only.
-/

namespace HudsonSandbox.Text

/-- What follows a number: nothing, or a character that is no digit. -/
def Closed (rest : List Char) : Prop := ∀ c ∈ rest.head?, c.isDigit = false

theorem closed_nil : Closed [] := by simp [Closed]

theorem closed_cons {c : Char} {rest : List Char} (apart : c.isDigit = false) :
    Closed (c :: rest) := by
  simpa [Closed] using apart

variable {α β : Type*}

def Delimited (render : α → List Char) : Prop :=
  ∀ a b r s, Closed r → Closed s → render a ++ r = render b ++ s → render a = render b ∧ r = s

namespace Delimited

theorem of_length {render : α → List Char} (same : ∀ a b, (render a).length = (render b).length) :
    Delimited render :=
  fun a b _ _ _ _ equal => List.append_inj equal (same a b)

theorem comp {render : α → List Char} (delimited : Delimited render) (f : β → α) :
    Delimited fun b => render (f b) :=
  fun a b => delimited (f a) (f b)

theorem quoted {render : α → List Char} (delimited : Delimited render) :
    Delimited fun a => quoted (render a) := by
  intro a b r s _ _ equal
  simp only [Text.quoted, List.cons_append, List.append_assoc, List.cons.injEq, true_and,
    List.nil_append] at equal
  obtain ⟨same, rest⟩ := delimited a b _ _ (closed_cons rfl) (closed_cons rfl) equal
  exact ⟨by simp [Text.quoted, same], (List.cons.inj rest).2⟩

theorem member {render : α → List Char} (delimited : Delimited render) (name : String) :
    Delimited fun a => member name (render a) := by
  intro a b r s closed closed' equal
  simp only [Text.member, List.append_assoc, List.cons_append] at equal
  have value := (List.cons.inj (List.append_cancel_left equal)).2
  obtain ⟨same, rest⟩ := delimited a b r s closed closed' value
  exact ⟨by simp [Text.member, same], rest⟩

end Delimited

/-! ### Numbers -/

/-- A maximal run of one kind of character is found again in front of another kind. -/
theorem span_append {p : Char → Bool} {a b r s : List Char} (inside : ∀ c ∈ a, p c = true)
    (inside' : ∀ c ∈ b, p c = true) (outside : ∀ c ∈ r.head?, p c = false)
    (outside' : ∀ c ∈ s.head?, p c = false) (equal : a ++ r = b ++ s) : a = b ∧ r = s := by
  induction a generalizing b with
  | nil =>
    cases b with
    | nil => exact ⟨rfl, equal⟩
    | cons c b =>
      have within := inside' c List.mem_cons_self
      have other := outside c (by rw [show r = _ from equal]; simp)
      rw [other] at within
      cases within
  | cons c a ih =>
    cases b with
    | nil =>
      have within := inside c List.mem_cons_self
      have other := outside' c (by rw [← show c :: a ++ r = s from equal]; simp)
      rw [other] at within
      cases within
    | cons d b =>
      obtain ⟨rfl, tail⟩ := List.cons.inj equal
      obtain ⟨same, rest⟩ := ih (fun c within => inside c (List.mem_cons_of_mem _ within))
        (fun c within => inside' c (List.mem_cons_of_mem _ within)) tail
      exact ⟨by rw [same], rest⟩

/-- A maximal run of digits in front of a closed rest is found again. -/
theorem digits_append {a b r s : List Char} (digitsA : ∀ c ∈ a, c.isDigit = true)
    (digitsB : ∀ c ∈ b, c.isDigit = true) (closed : Closed r) (closed' : Closed s)
    (equal : a ++ r = b ++ s) : a = b ∧ r = s :=
  span_append digitsA digitsB closed closed' equal

theorem decimal_digits {n : ℕ} : ∀ c ∈ decimal n, c.isDigit = true :=
  fun _ within => Nat.isDigit_of_mem_toDigits (by omega) (by omega) within

theorem decimal_delimited : Delimited decimal :=
  fun _ _ _ _ closed closed' => digits_append decimal_digits decimal_digits closed closed'

theorem decimal_injective : Function.Injective decimal := by
  intro a b same
  have read : Nat.ofDigitChars 10 (decimal a) 0 = Nat.ofDigitChars 10 (decimal b) 0 := by rw [same]
  simpa only [decimal, Nat.ofDigitChars_ten_toDigits] using read

theorem decimal_head {n : ℕ} {rest : List Char} : ∀ c ∈ (decimal n ++ rest).head?, c.isDigit = true := by
  intro c first
  obtain ⟨d, digits, split⟩ := List.exists_cons_of_ne_nil (Nat.toDigits_ne_nil (n := n) (b := 10))
  have whole : decimal n = d :: digits := split
  rw [whole, List.cons_append, List.head?_cons] at first
  obtain rfl := Option.some.inj first
  exact decimal_digits d (whole ▸ List.mem_cons_self)

/-- A signed word, with a minus sign in front of a negative one. -/
def integer : ℤ → List Char
  | .ofNat n => decimal n
  | .negSucc n => '-' :: decimal (n + 1)

theorem integer_cases (a b : ℤ) (r s : List Char) (equal : integer a ++ r = integer b ++ s) :
    (∃ m n, a = .ofNat m ∧ b = .ofNat n) ∨ ∃ m n, a = .negSucc m ∧ b = .negSucc n := by
  have minus : ∀ m n, decimal m ++ r ≠ '-' :: decimal n ++ s ∧ decimal m ++ s ≠ '-' :: decimal n ++ r := by
    intro m n
    constructor <;>
    · intro same
      have first := decimal_head (n := m) '-' (by rw [same]; rfl)
      exact absurd first (by decide)
  cases a with
  | ofNat m =>
    cases b with
    | ofNat n => exact Or.inl ⟨m, n, rfl, rfl⟩
    | negSucc n => exact absurd equal (minus m (n + 1)).1
  | negSucc m =>
    cases b with
    | ofNat n => exact absurd equal.symm (minus n (m + 1)).2
    | negSucc n => exact Or.inr ⟨m, n, rfl, rfl⟩

theorem integer_delimited : Delimited integer := by
  intro a b r s closed closed' equal
  rcases integer_cases a b r s equal with ⟨m, n, rfl, rfl⟩ | ⟨m, n, rfl, rfl⟩
  · exact decimal_delimited m n r s closed closed' equal
  · obtain ⟨same, rest⟩ := decimal_delimited _ _ r s closed closed' (List.cons.inj equal).2
    exact ⟨congrArg (List.cons '-') same, rest⟩

theorem integer_injective : Function.Injective integer := by
  intro a b same
  rcases integer_cases a b [] [] (by rw [same]) with ⟨m, n, rfl, rfl⟩ | ⟨m, n, rfl, rfl⟩
  · rw [decimal_injective same]
  · have next : m + 1 = n + 1 := decimal_injective (List.cons.inj same).2
    rw [Nat.add_right_cancel next]

theorem integer_length {n : ℤ} {k : ℕ} (positive : 0 < k) (low : 0 ≤ n) (high : n < 10 ^ k) :
    (integer n).length ≤ k := by
  obtain ⟨m, rfl⟩ := Int.eq_ofNat_of_zero_le low
  exact decimal_length positive (by exact_mod_cast high)

theorem integer_printable (n : ℤ) : Printable (integer n) := by
  cases n with
  | ofNat n => exact decimal_printable n
  | negSucc n => exact (decimal_printable _).cons (by decide)

/-! ### Records -/

/-- A rendered record: the fields in order, each under its name. -/
def record (fields : List (String × (α → List Char))) (a : α) : List Char :=
  object (fields.map fun field => member field.1 (field.2 a))

theorem separated_fields {fields : List (String × (α → List Char))} {a b : α} {r s : List Char}
    (delimited : ∀ field ∈ fields, Delimited field.2) (closed : Closed r) (closed' : Closed s)
    (equal : separated (fields.map fun field => member field.1 (field.2 a)) ++ r =
      separated (fields.map fun field => member field.1 (field.2 b)) ++ s) :
    (∀ field ∈ fields, field.2 a = field.2 b) ∧ r = s := by
  have one : ∀ field ∈ fields, ∀ {r s : List Char}, Closed r → Closed s →
      member field.1 (field.2 a) ++ r = member field.1 (field.2 b) ++ s →
      field.2 a = field.2 b ∧ r = s := by
    intro field within r s closed closed' equal
    simp only [member, List.append_assoc, List.cons_append] at equal
    exact delimited field within a b r s closed closed'
      (List.cons.inj (List.append_cancel_left equal)).2
  induction fields with
  | nil => exact ⟨by simp, equal⟩
  | cons field rest ih =>
    cases rest with
    | nil =>
      obtain ⟨same, tail⟩ := one field List.mem_cons_self closed closed' equal
      exact ⟨by simpa using same, tail⟩
    | cons second rest =>
      simp only [List.map_cons, separated, List.append_assoc, List.cons_append] at equal ih
      obtain ⟨same, tail⟩ := one field List.mem_cons_self (closed_cons rfl) (closed_cons rfl) equal
      obtain ⟨others, tail⟩ := ih (fun f within => delimited f (List.mem_cons_of_mem _ within))
        (List.cons.inj tail).2 (fun f within => one f (List.mem_cons_of_mem _ within))
      exact ⟨List.forall_mem_cons.mpr ⟨same, others⟩, tail⟩

theorem record_fields {fields : List (String × (α → List Char))} {a b : α} {r s : List Char}
    (delimited : ∀ field ∈ fields, Delimited field.2)
    (equal : record fields a ++ r = record fields b ++ s) :
    (∀ field ∈ fields, field.2 a = field.2 b) ∧ r = s := by
  simp only [record, object, List.cons_append, List.append_assoc, List.cons.injEq, true_and,
    List.nil_append] at equal
  obtain ⟨same, rest⟩ := separated_fields delimited (closed_cons rfl) (closed_cons rfl) equal
  exact ⟨same, (List.cons.inj rest).2⟩

theorem record_eq {fields : List (String × (α → List Char))} {a b : α}
    (delimited : ∀ field ∈ fields, Delimited field.2) (same : record fields a = record fields b) :
    ∀ field ∈ fields, field.2 a = field.2 b := by
  have equal : record fields a ++ [] = record fields b ++ [] := by rw [same]
  exact (record_fields delimited equal).1

theorem record_delimited {fields : List (String × (α → List Char))}
    (delimited : ∀ field ∈ fields, Delimited field.2) : Delimited (record fields) := by
  intro a b r s _ _ equal
  obtain ⟨same, rest⟩ := record_fields delimited equal
  have members : (fields.map fun field => member field.1 (field.2 a)) =
      fields.map fun field => member field.1 (field.2 b) :=
    List.map_congr_left fun field within => by rw [same field within]
  exact ⟨by rw [record, record, members], rest⟩

/-! ### Lists -/

/-- Items that are never empty and never start with a closing bracket. -/
def Starts (render : α → List Char) : Prop := ∀ a, ∃ c rest, render a = c :: rest ∧ c ≠ ']'

/-- Items that are read one by one are read as a list, up to the character that closes it. -/
theorem separated_reads {render : α → List Char} {Stops : List Char → Prop} {R : α → α → Prop} {close : Char}
    (comma : ∀ r, Stops (',' :: r)) (closing : ∀ r, Stops (close :: r)) (apart : close ≠ ',')
    {as bs : List α} {r s : List Char}
    (reads : ∀ a ∈ as, ∀ b ∈ bs, ∀ r s, Stops r → Stops s → render a ++ r = render b ++ s → R a b ∧ r = s)
    (starts : ∀ a, ∃ c rest, render a = c :: rest ∧ c ≠ close)
    (equal : separated (as.map render) ++ close :: r = separated (bs.map render) ++ close :: s) :
    List.Forall₂ R as bs ∧ r = s := by
  induction as generalizing bs with
  | nil =>
    cases bs with
    | nil => exact ⟨.nil, (List.cons.inj equal).2⟩
    | cons b bs =>
      obtain ⟨c, rest, head, other⟩ := starts b
      cases bs <;> simp [separated, head, other.symm] at equal
  | cons a as ih =>
    cases bs with
    | nil =>
      obtain ⟨c, rest, head, other⟩ := starts a
      cases as <;> simp [separated, head, other] at equal
    | cons b bs =>
      have first := reads a List.mem_cons_self b List.mem_cons_self
      -- what follows an item is a comma or the closing bracket, on both sides the same one
      cases as with
      | nil =>
        cases bs with
        | nil =>
          obtain ⟨same, rest⟩ := first _ _ (closing _) (closing _) equal
          exact ⟨.cons same .nil, (List.cons.inj rest).2⟩
        | cons b' bs =>
          simp only [List.map_cons, List.map_nil, separated, List.append_assoc,
            List.cons_append] at equal
          obtain ⟨_, rest⟩ := first _ _ (closing _) (comma _) equal
          exact absurd (List.cons.inj rest).1 apart
      | cons a' as =>
        cases bs with
        | nil =>
          simp only [List.map_cons, List.map_nil, separated, List.append_assoc,
            List.cons_append] at equal
          obtain ⟨_, rest⟩ := first _ _ (comma _) (closing _) equal
          exact absurd (List.cons.inj rest).1.symm apart
        | cons b' bs =>
          have ih := @ih (b' :: bs) fun x member y other =>
            reads x (List.mem_cons_of_mem _ member) y (List.mem_cons_of_mem _ other)
          simp only [List.map_cons, separated, List.append_assoc, List.cons_append] at equal ih
          obtain ⟨same, rest⟩ := first _ _ (comma _) (comma _) equal
          obtain ⟨others, rest⟩ := ih (List.cons.inj rest).2
          exact ⟨.cons same others, rest⟩

theorem separated_items {render : α → List Char} (delimited : Delimited render)
    (starts : Starts render) {as bs : List α} {r s : List Char}
    (equal : separated (as.map render) ++ ']' :: r = separated (bs.map render) ++ ']' :: s) :
    as.map render = bs.map render ∧ r = s := by
  have reads : ∀ a ∈ as, ∀ b ∈ bs, ∀ r s, Closed r → Closed s → render a ++ r = render b ++ s →
      render a = render b ∧ r = s := by
    intro a _ b _
    exact delimited a b
  obtain ⟨items, rest⟩ := separated_reads (fun _ => closed_cons rfl) (fun _ => closed_cons rfl) (by decide)
    reads starts equal
  have mapped : List.Forall₂ Eq (as.map render) (bs.map render) :=
    List.forall₂_map_left_iff.mpr (List.forall₂_map_right_iff.mpr items)
  rw [List.forall₂_eq_eq_eq] at mapped
  exact ⟨mapped, rest⟩

theorem array_items {render : α → List Char} (delimited : Delimited render)
    (starts : Starts render) {as bs : List α} {r s : List Char}
    (equal : array (as.map render) ++ r = array (bs.map render) ++ s) :
    as.map render = bs.map render ∧ r = s := by
  simp only [array, List.cons_append, List.append_assoc, List.cons.injEq, true_and,
    List.nil_append] at equal
  exact separated_items delimited starts equal

theorem array_eq {render : α → List Char} (delimited : Delimited render) (starts : Starts render)
    {as bs : List α} (same : array (as.map render) = array (bs.map render)) :
    as.map render = bs.map render := by
  have equal : array (as.map render) ++ [] = array (bs.map render) ++ [] := by rw [same]
  exact (array_items delimited starts equal).1

theorem array_delimited {render : α → List Char} (delimited : Delimited render)
    (starts : Starts render) : Delimited fun as : List α => array (as.map render) := by
  intro as bs r s _ _ equal
  obtain ⟨same, rest⟩ := array_items delimited starts equal
  exact ⟨congrArg array same, rest⟩

/-- A list of items of bounded width. -/
theorem array_length_le {items : List (List Char)} {n : ℕ}
    (each : ∀ item ∈ items, item.length ≤ n) :
    (array items).length ≤ items.length * (n + 1) + 2 := by
  have whole := array_length items
  have widths : ∀ m ∈ items.map (fun item => item.length + 1), m ≤ n + 1 := by
    intro m within
    obtain ⟨item, listed, rfl⟩ := List.mem_map.mp within
    exact Nat.succ_le_succ (each item listed)
  have total := List.sum_le_card_nsmul _ (n + 1) widths
  simp only [List.length_map, nsmul_eq_mul, Nat.cast_id] at total
  omega

theorem record_starts (fields : List (String × (α → List Char))) : Starts (record fields) :=
  fun _ => ⟨'\x7b', _, rfl, by decide⟩

theorem decimal_starts : Starts decimal := by
  intro n
  obtain ⟨c, rest, split⟩ := List.exists_cons_of_ne_nil (Nat.toDigits_ne_nil (n := n) (b := 10))
  refine ⟨c, rest, split, ?_⟩
  rintro rfl
  have digit := decimal_digits ']' (show ']' ∈ decimal n by rw [decimal, split]; exact List.mem_cons_self)
  exact absurd digit (by decide)

/-! ### Printable records -/

instance (text : List Char) : Decidable (Printable text) :=
  decidable_of_iff (text.all (fun c => decide (' ' ≤ c ∧ c ≤ '~')) = true) (by simp [Printable])

theorem quoted_printable {text : List Char} (printable : Printable text) :
    Printable (quoted text) :=
  (printable.append (by decide : Printable ['"'])).cons (by decide)

theorem quoted_injective : Function.Injective quoted := by
  intro a b same
  exact List.append_cancel_right (List.cons.inj same).2

theorem member_printable {name : String} {value : List Char} (title : Printable name.toList)
    (printable : Printable value) : Printable (member name value) :=
  (quoted_printable title).append (printable.cons (by decide))

theorem separated_printable {items : List (List Char)} (printable : ∀ item ∈ items, Printable item) :
    Printable (separated items) := by
  fun_induction separated items with
  | case1 => exact fun _ within => by cases within
  | case2 item => exact printable item List.mem_cons_self
  | case3 item rest _ ih =>
    have tail := ih fun i within => printable i (List.mem_cons_of_mem _ within)
    exact (printable item List.mem_cons_self).append (tail.cons (by decide))

theorem record_printable {fields : List (String × (α → List Char))} {a : α}
    (titles : ∀ field ∈ fields, Printable field.1.toList)
    (printable : ∀ field ∈ fields, Printable (field.2 a)) : Printable (record fields a) := by
  have inner : Printable (separated (fields.map fun field => member field.1 (field.2 a))) := by
    apply separated_printable
    intro item within
    obtain ⟨field, listed, rfl⟩ := List.mem_map.mp within
    exact member_printable (titles field listed) (printable field listed)
  exact (inner.append (by decide : Printable ['\x7d'])).cons (by decide)

theorem array_printable {items : List (List Char)} (printable : ∀ item ∈ items, Printable item) :
    Printable (array items) :=
  ((separated_printable printable).append (by decide : Printable [']'])).cons (by decide)

/-! ### Bytes -/

def utf8 (text : List Char) : List UInt8 := (String.ofList text).toUTF8.data.toList

theorem utf8_injective : Function.Injective utf8 := by
  intro a b same
  have bytes : (String.ofList a).toByteArray = (String.ofList b).toByteArray :=
    ByteArray.ext (Array.toList_inj.mp same)
  exact String.ofList_injective (String.toByteArray_inj.mp bytes)

theorem utf8_length {text : List Char} (printable : Printable text) :
    (utf8 text).length = text.length :=
  utf8ByteSize_printable printable

end HudsonSandbox.Text
