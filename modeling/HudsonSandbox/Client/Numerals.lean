import HudsonSandbox.Library.JsonText
import Mathlib.Data.Int.Log
import Mathlib.Data.List.TakeWhile
import Mathlib.Data.Rat.Floor
import Mathlib.Tactic.IntervalCases

/-!
# Numbers of the TypeScript client

The numbers of a JSON text as the client keeps them: integers exactly, as a number where that is safe and as a
bigint elsewhere, and fractional tokens as the floating-point numbers that they denote.
-/

namespace HudsonSandbox.Wire
open JsonText

/-! ### Floating-point numbers -/

/-- A `number`: finite, or an infinity. -/
inductive Double where
  | finite (q : ℚ)
  | infinite
  deriving DecidableEq

/-- The nearest integer, and of two equally near ones the even one. -/
def roundHalfEven (q : ℚ) : ℤ :=
  if q - ⌊q⌋ < 1 / 2 then ⌊q⌋
  else if 1 / 2 < q - ⌊q⌋ then ⌊q⌋ + 1
  else if ⌊q⌋ % 2 = 0 then ⌊q⌋
  else ⌊q⌋ + 1

/-- The exponent of the last bit of the numbers around `q`. -/
def lastBit (q : ℚ) : ℤ := max (Int.log 2 |q| - 52) (-1074)

/-- The double that is nearest to a number. -/
def Double.round (q : ℚ) : Double :=
  let nearest : ℚ := roundHalfEven (q / 2 ^ lastBit q) * 2 ^ lastBit q
  if 2 ^ 1024 ≤ |nearest| then .infinite else .finite nearest

def MAX_SAFE_INTEGER : ℤ := 9007199254740991
def MIN_SAFE_INTEGER : ℤ := -9007199254740991

def Double.isInteger : Double → Bool
  | .finite q => q.isInt
  | .infinite => false

def Double.isSafeInteger : Double → Bool
  | .finite q => q.isInt && decide (|q| ≤ MAX_SAFE_INTEGER)
  | .infinite => false

theorem roundHalfEven_intCast (n : ℤ) : roundHalfEven n = n := by
  unfold roundHalfEven
  rw [Int.floor_intCast, if_pos (by norm_num)]

theorem lastBit_small {n : ℤ} (small : |n| < 2 ^ 53) : lastBit n ≤ 0 := by
  have bound : Int.log 2 |(n : ℚ)| ≤ 52 := by
    by_cases zero : n = 0
    · rw [zero, Int.cast_zero, abs_zero, Int.log_zero_right]
      omega
    · have positive : (0 : ℚ) < |(n : ℚ)| := abs_pos.mpr (Int.cast_ne_zero.mpr zero)
      have below : |(n : ℚ)| < ((2 : ℕ) : ℚ) ^ (53 : ℤ) := by
        rw [← Int.cast_abs]
        exact_mod_cast small
      have less := (Int.lt_zpow_iff_log_lt Nat.one_lt_two positive).mp below
      omega
  unfold lastBit
  omega

/-- Integers of at most 53 bits are doubles. -/
theorem round_small {n : ℤ} (small : |n| < 2 ^ 53) : Double.round n = .finite n := by
  obtain ⟨k, scale⟩ : ∃ k : ℕ, lastBit n = -(k : ℤ) := ⟨(-lastBit n).toNat, by have := lastBit_small small; omega⟩
  have exact_ : (n : ℚ) / 2 ^ lastBit n = ((n * 2 ^ k : ℤ) : ℚ) := by
    rw [scale, zpow_neg, div_inv_eq_mul, zpow_natCast]
    push_cast
    rfl
  have back : ((n * 2 ^ k : ℤ) : ℚ) * 2 ^ lastBit n = n := by
    rw [← exact_]
    exact div_mul_cancel₀ _ (zpow_ne_zero _ two_ne_zero)
  have fits : ¬(2 : ℚ) ^ 1024 ≤ |(n : ℚ)| := by
    rw [not_le]
    calc |(n : ℚ)| = ((|n| : ℤ) : ℚ) := (Int.cast_abs).symm
      _ < 2 ^ 53 := by exact_mod_cast small
      _ ≤ 2 ^ 1024 := pow_le_pow_right₀ one_le_two (by omega)
  unfold Double.round
  dsimp only
  rw [exact_, roundHalfEven_intCast, back, if_neg fits]

/-! ### Tokens -/

/-- The units that belong to a run of digits, and the rest. -/
def digits (s : Text) : Text × Text := (s.takeWhile isDigit, s.dropWhile isDigit)

/-- `0|[1-9][0-9]*` -/
def intPart : Text → Option (Text × Text)
  | [] => none
  | c :: rest =>
    if c = unit '0' then some ([c], rest)
    else if isDigit c then some (c :: (digits rest).1, (digits rest).2)
    else none

/-- `(?:\.[0-9]+)?` -/
def fracPart : Text → Text × Text
  | [] => ([], [])
  | c :: rest =>
    if c = unit '.' ∧ (digits rest).1 ≠ [] then (c :: (digits rest).1, (digits rest).2) else ([], c :: rest)

/-- `[+-]?` -/
def signPart : Text → Text × Text
  | [] => ([], [])
  | c :: rest => if c = unit '+' ∨ c = unit '-' then ([c], rest) else ([], c :: rest)

/-- `(?:[eE][+-]?[0-9]+)?` -/
def expPart : Text → Text × Text
  | [] => ([], [])
  | c :: rest =>
    if (c = unit 'e' ∨ c = unit 'E') ∧ (digits (signPart rest).2).1 ≠ [] then
      (c :: ((signPart rest).1 ++ (digits (signPart rest).2).1), (digits (signPart rest).2).2)
    else ([], c :: rest)

/-- `-?` -/
def minusPart : Text → Text × Text
  | [] => ([], [])
  | c :: rest => if c = unit '-' then ([c], rest) else ([], c :: rest)

/-- The match of `-?(?:0|[1-9][0-9]*)(?:\.[0-9]+)?(?:[eE][+-]?[0-9]+)?` at the front of a text, and what is behind it. -/
def numberToken (s : Text) : Option (Text × Text) :=
  match intPart (minusPart s).2 with
  | none => none
  | some (int, rest) =>
    some ((minusPart s).1 ++ (int ++ ((fracPart rest).1 ++ (expPart (fracPart rest).2).1)), (expPart (fracPart rest).2).2)

/-- `/[.eE]/` -/
def hasPoint (token : Text) : Bool := token.any fun c => c = unit '.' || c = unit 'e' || c = unit 'E'

def digitValue (c : UInt16) : ℕ := c.toNat - 48

/-- The digits of a text as a decimal number. -/
def decimalValue (s : Text) : ℕ := s.foldl (fun n c => 10 * n + digitValue c) 0

/-- `BigInt` of an integer token -/
def bigInt (token : Text) : ℤ :=
  if (minusPart token).1 = [] then decimalValue token else -decimalValue (minusPart token).2

/-- What a token with a point or an exponent denotes, before it is rounded. -/
def exactValue (token : Text) : ℚ :=
  let mantissa := (minusPart token).2.takeWhile fun c => c ≠ unit 'e' ∧ c ≠ unit 'E'
  let power := ((minusPart token).2.dropWhile fun c => c ≠ unit 'e' ∧ c ≠ unit 'E').tail
  let fraction := (mantissa.dropWhile fun c => c ≠ unit '.').tail
  let exponent : ℤ :=
    if power.head? = some (unit '-') then -decimalValue (power.filter isDigit) else decimalValue (power.filter isDigit)
  let value : ℚ := decimalValue (mantissa.filter isDigit) * 10 ^ (exponent - fraction.length)
  if (minusPart token).1 = [] then value else -value

/-- `Number` of a token -/
def number (token : Text) : Double := .round (exactValue token)

/-- What stands for a number: a `number`, a `bigint`, or a `JsonFloat`. -/
inductive Numeric where
  | number (n : Double)
  | bigint (n : ℤ)
  | float (n : Double)
  deriving DecidableEq

/-- The number that is meant. -/
def Numeric.value : Numeric → Double
  | .number n => n
  | .bigint n => .finite n
  | .float n => n

/-- The number of a token, unless it is refused. -/
def numeric (token : Text) : Option Numeric :=
  if hasPoint token = false then
    if 20 < (token.erase (unit '-')).length then none
    else if MIN_SAFE_INTEGER ≤ bigInt token ∧ bigInt token ≤ MAX_SAFE_INTEGER then some (.number (.round (bigInt token)))
    else some (.bigint (bigInt token))
  else if number token = .infinite ∨ (number token).isInteger ∧ ¬(number token).isSafeInteger then none
  else some (.float (number token))

/-! ### A token is read to its end -/

/-- What a run of digits stops at. -/
def Apart (rest : Text) : Prop := ∀ c ∈ rest.head?, isDigit c = false

theorem digits_append {ds rest : Text} (all : ∀ c ∈ ds, isDigit c = true) (apart : Apart rest) : digits (ds ++ rest) = (ds, rest) := by
  unfold digits
  rw [List.takeWhile_append_of_pos all, List.dropWhile_append_of_pos all]
  cases rest with
  | nil => simp
  | cons c rest => simp [apart c rfl]

theorem digits_whole (s : Text) : s = (digits s).1 ++ (digits s).2 := List.takeWhile_append_dropWhile.symm

theorem digits_all (s : Text) : ∀ c ∈ (digits s).1, isDigit c = true := fun _ member => List.mem_takeWhile_imp member

theorem digits_none {s : Text} (apart : Apart s) : digits s = ([], s) := @digits_append [] s (fun _ member => absurd member List.not_mem_nil) apart

theorem apart_cons {c : UInt16} {rest : Text} (other : isDigit c = false) : Apart (c :: rest) := by
  intro c' head
  cases head
  exact other

theorem minusPart_whole (s : Text) : s = (minusPart s).1 ++ (minusPart s).2 ∧ Minus (minusPart s).1 := by
  cases s with
  | nil => exact ⟨rfl, .inl rfl⟩
  | cons c rest =>
    rw [minusPart]
    by_cases minus : c = unit '-'
    · rw [if_pos minus, minus]
      exact ⟨rfl, .inr rfl⟩
    · rw [if_neg minus]
      exact ⟨rfl, .inl rfl⟩

theorem intPart_some {s int rest : Text} (found : intPart s = some (int, rest)) : s = int ++ rest ∧ IntPart int := by
  cases s with
  | nil => cases found
  | cons c s =>
    rw [intPart] at found
    by_cases zero : c = unit '0'
    · rw [if_pos zero] at found
      cases found
      exact ⟨rfl, .inl (by rw [zero])⟩
    · rw [if_neg zero] at found
      by_cases digit : isDigit c = true
      · rw [if_pos digit] at found
        cases found
        exact ⟨congrArg (c :: ·) (digits_whole s), .inr ⟨c, _, rfl, zero, digit, digits_all s⟩⟩
      · rw [if_neg digit] at found
        cases found

theorem fracPart_whole (s : Text) : s = (fracPart s).1 ++ (fracPart s).2 ∧ FracPart (fracPart s).1 := by
  cases s with
  | nil => exact ⟨rfl, .inl rfl⟩
  | cons c rest =>
    rw [fracPart]
    by_cases point : c = unit '.' ∧ (digits rest).1 ≠ []
    · rw [if_pos point]
      exact ⟨congrArg (c :: ·) (digits_whole rest), .inr ⟨_, by rw [point.1], point.2, digits_all rest⟩⟩
    · rw [if_neg point]
      exact ⟨rfl, .inl rfl⟩

theorem signPart_whole (s : Text) : s = (signPart s).1 ++ (signPart s).2 ∧
    ((signPart s).1 = [] ∨ (signPart s).1 = [unit '+'] ∨ (signPart s).1 = [unit '-']) := by
  cases s with
  | nil => exact ⟨rfl, .inl rfl⟩
  | cons c rest =>
    rw [signPart]
    by_cases sign : c = unit '+' ∨ c = unit '-'
    · rw [if_pos sign]
      exact ⟨rfl, .inr (sign.imp (fun same => by rw [same]) fun same => by rw [same])⟩
    · rw [if_neg sign]
      exact ⟨rfl, .inl rfl⟩

theorem expPart_whole (s : Text) : s = (expPart s).1 ++ (expPart s).2 ∧ ExpPart (expPart s).1 := by
  cases s with
  | nil => exact ⟨rfl, .inl rfl⟩
  | cons c rest =>
    obtain ⟨whole, sign⟩ := signPart_whole rest
    have behind := digits_whole (signPart rest).2
    rw [expPart]
    by_cases exp : (c = unit 'e' ∨ c = unit 'E') ∧ (digits (signPart rest).2).1 ≠ []
    · rw [if_pos exp]
      refine ⟨?_, .inr ⟨c, _, _, rfl, exp.1, sign, exp.2, digits_all _⟩⟩
      rw [List.cons_append, List.append_assoc, ← behind, ← whole]
    · rw [if_neg exp]
      exact ⟨rfl, .inl rfl⟩

/-- What is taken for a number is one. -/
theorem numberToken_some {s token rest : Text} (found : numberToken s = some (token, rest)) :
    s = token ++ rest ∧ NumberToken token := by
  obtain ⟨front, minus⟩ := minusPart_whole s
  unfold numberToken at found
  cases int : intPart (minusPart s).2 with
  | none =>
    rw [int] at found
    cases found
  | some taken =>
    obtain ⟨int', behind⟩ := taken
    rw [int] at found
    cases found
    obtain ⟨whole, isInt⟩ := intPart_some int
    obtain ⟨fraction, isFrac⟩ := fracPart_whole behind
    obtain ⟨power, isExp⟩ := expPart_whole (fracPart behind).2
    refine ⟨?_, _, _, _, _, rfl, minus, isInt, isFrac, isExp⟩
    calc s = (minusPart s).1 ++ (int' ++ ((fracPart behind).1 ++ ((expPart (fracPart behind).2).1 ++ (expPart (fracPart behind).2).2))) := by
          rw [← power, ← fraction, ← whole, ← front]
      _ = _ := by simp only [List.append_assoc]

/-- What a number stops at. -/
def Stops (rest : Text) : Prop := ∀ c ∈ rest.head?, isDigit c = false ∧ c ≠ unit '.' ∧ c ≠ unit 'e' ∧ c ≠ unit 'E'

theorem Stops.apart {rest : Text} (stops : Stops rest) : Apart rest := fun c head => (stops c head).1

theorem expPart_append {exp rest : Text} (isExp : ExpPart exp) (stops : Stops rest) : expPart (exp ++ rest) = (exp, rest) := by
  cases isExp with
  | inl none_ =>
    rw [none_]
    cases rest with
    | nil => rfl
    | cons c rest =>
      obtain ⟨_, _, small, large⟩ := stops c rfl
      exact if_neg fun both => both.1.elim small large
  | inr some_ =>
    obtain ⟨e, sign, ds, whole, marks, isSign, present, all⟩ := some_
    have read := digits_append all stops.apart
    have signs : signPart (sign ++ (ds ++ rest)) = (sign, ds ++ rest) := by
      cases ds with
      | nil => exact absurd rfl present
      | cons d ds =>
        have digit := all d List.mem_cons_self
        rcases isSign with none_ | plus | minus
        · rw [none_]
          refine if_neg ?_
          intro mark
          cases mark with
          | inl plus =>
            rw [plus] at digit
            exact absurd digit (by decide)
          | inr minus =>
            rw [minus] at digit
            exact absurd digit (by decide)
        · rw [plus]
          rfl
        · rw [minus]
          rfl
    rw [whole, List.cons_append, List.append_assoc]
    rw [expPart, signs, read]
    exact if_pos ⟨marks, present⟩

/-- Neither a fraction nor an exponent begins with a digit, and an exponent does not begin with a point. -/
theorem exp_head {exp rest : Text} (isExp : ExpPart exp) (stops : Stops rest) :
    ∀ c ∈ (exp ++ rest).head?, isDigit c = false ∧ c ≠ unit '.' := by
  intro c head
  cases isExp with
  | inl none_ =>
    rw [none_] at head
    exact ⟨(stops c head).1, (stops c head).2.1⟩
  | inr some_ =>
    obtain ⟨e, sign, ds, whole, marks, _⟩ := some_
    rw [whole] at head
    cases head
    cases marks with
    | inl small =>
      rw [small]
      decide
    | inr large =>
      rw [large]
      decide

theorem frac_head {frac rest : Text} (isFrac : FracPart frac) (apart : Apart rest) : Apart (frac ++ rest) := by
  cases isFrac with
  | inl none_ =>
    rw [none_]
    exact apart
  | inr some_ =>
    obtain ⟨ds, whole, _⟩ := some_
    rw [whole]
    exact apart_cons (by decide)

theorem fracPart_append {frac rest : Text} (isFrac : FracPart frac) (apart : ∀ c ∈ rest.head?, isDigit c = false ∧ c ≠ unit '.') :
    fracPart (frac ++ rest) = (frac, rest) := by
  cases isFrac with
  | inl none_ =>
    rw [none_]
    cases rest with
    | nil => rfl
    | cons c rest => exact if_neg fun both => (apart c rfl).2 both.1
  | inr some_ =>
    obtain ⟨ds, whole, present, all⟩ := some_
    have read := digits_append all fun c head => (apart c head).1
    rw [whole, List.cons_append]
    rw [fracPart, read]
    exact if_pos ⟨rfl, present⟩

theorem intPart_append {int rest : Text} (isInt : IntPart int) (apart : Apart rest) : intPart (int ++ rest) = some (int, rest) := by
  cases isInt with
  | inl zero =>
    rw [zero, List.singleton_append, intPart, if_pos rfl]
  | inr some_ =>
    obtain ⟨d, ds, whole, other, digit, all⟩ := some_
    have read := digits_append all apart
    rw [whole, List.cons_append]
    rw [intPart, if_neg other, if_pos digit, read]

theorem int_head {int : Text} (isInt : IntPart int) : ∃ d ds, int = d :: ds ∧ isDigit d = true ∧ ∀ c ∈ ds, isDigit c = true := by
  cases isInt with
  | inl zero => exact ⟨_, [], zero, by decide, fun _ member => absurd member List.not_mem_nil⟩
  | inr some_ =>
    obtain ⟨d, ds, whole, _, digit, all⟩ := some_
    exact ⟨d, ds, whole, digit, all⟩

theorem minusPart_append {minus int rest : Text} (isMinus : Minus minus) (isInt : IntPart int) :
    minusPart (minus ++ (int ++ rest)) = (minus, int ++ rest) := by
  obtain ⟨d, ds, whole, digit, _⟩ := int_head isInt
  cases isMinus with
  | inl none_ =>
    rw [none_, whole]
    refine if_neg ?_
    intro same
    rw [same] at digit
    exact absurd digit (by decide)
  | inr some_ =>
    rw [some_, List.singleton_append, minusPart, if_pos rfl]

/-- A number is taken whole. -/
theorem numberToken_append {token rest : Text} (grammar : NumberToken token) (stops : Stops rest) :
    numberToken (token ++ rest) = some (token, rest) := by
  obtain ⟨minus, int, frac, exp, whole, isMinus, isInt, isFrac, isExp⟩ := grammar
  have power := expPart_append isExp stops
  have behind := exp_head isExp stops
  have fraction := fracPart_append isFrac behind
  have integer := intPart_append isInt (frac_head isFrac fun c head => (behind c head).1)
  have front := @minusPart_append minus int (frac ++ (exp ++ rest)) isMinus isInt
  have split : token ++ rest = minus ++ (int ++ (frac ++ (exp ++ rest))) := by simp only [whole, List.append_assoc]
  unfold numberToken
  rw [split, front]
  dsimp only
  rw [integer]
  dsimp only
  rw [fraction]
  dsimp only
  rw [power, whole]

/-! ### Integers -/

theorem integer_number {token : Text} (integer : IntegerToken token) : NumberToken token := by
  obtain ⟨minus, int, whole, isMinus, isInt⟩ := integer
  exact ⟨minus, int, [], [], by simp only [whole, List.append_nil], isMinus, isInt, .inl rfl, .inl rfl⟩

theorem minus_calm {minus : Text} (isMinus : Minus minus) : hasPoint minus = false := by
  cases isMinus with
  | inl none_ => rw [none_]; rfl
  | inr some_ => rw [some_]; decide

theorem digits_calm {ds : Text} (all : ∀ c ∈ ds, isDigit c = true) : hasPoint ds = false := by
  unfold hasPoint
  rw [List.any_eq_false]
  intro c member point
  have digit := all c member
  simp only [Bool.or_eq_true, decide_eq_true_eq] at point
  rcases point with (same | same) | same <;> rw [same] at digit <;> exact absurd digit (by decide)

theorem int_digits {int : Text} (isInt : IntPart int) : ∀ c ∈ int, isDigit c = true := by
  obtain ⟨d, ds, whole, digit, all⟩ := int_head isInt
  rw [whole]
  exact List.forall_mem_cons.mpr ⟨digit, all⟩

theorem hasPoint_append (a b : Text) : hasPoint (a ++ b) = (hasPoint a || hasPoint b) := List.any_append

/-- The client tells integers by the absence of a point and an exponent. -/
theorem hasPoint_number {token : Text} (grammar : NumberToken token) : hasPoint token = false ↔ IntegerToken token := by
  constructor
  · intro calm
    obtain ⟨minus, int, frac, exp, whole, isMinus, isInt, isFrac, isExp⟩ := grammar
    rw [whole, hasPoint_append, hasPoint_append, hasPoint_append, Bool.or_eq_false_iff, Bool.or_eq_false_iff,
      Bool.or_eq_false_iff] at calm
    have noFrac : frac = [] := by
      cases isFrac with
      | inl none_ => exact none_
      | inr some_ =>
        obtain ⟨ds, point, _⟩ := some_
        rw [point] at calm
        exact absurd calm.2.2.1 (by simp [hasPoint])
    have noExp : exp = [] := by
      cases isExp with
      | inl none_ => exact none_
      | inr some_ =>
        obtain ⟨e, sign, ds, point, marks, _⟩ := some_
        rw [point] at calm
        cases marks with
        | inl small => exact absurd calm.2.2.2 (by simp [hasPoint, small])
        | inr large => exact absurd calm.2.2.2 (by simp [hasPoint, large])
    refine ⟨minus, int, ?_, isMinus, isInt⟩
    rw [whole, noFrac, noExp, List.append_nil, List.append_nil]
  · intro integer
    obtain ⟨minus, int, whole, isMinus, isInt⟩ := integer
    rw [whole, hasPoint_append, minus_calm isMinus, digits_calm (int_digits isInt)]
    rfl

/-- The digits that a token has. -/
def digitCount (token : Text) : ℕ := (token.filter isDigit).length

theorem minusPart_integer {minus int : Text} (isMinus : Minus minus) (isInt : IntPart int) :
    minusPart (minus ++ int) = (minus, int) := by
  have front := @minusPart_append minus int [] isMinus isInt
  rw [List.append_nil] at front
  exact front

theorem erase_minus {token : Text} (integer : IntegerToken token) : (token.erase (unit '-')).length = digitCount token := by
  obtain ⟨minus, int, whole, isMinus, isInt⟩ := integer
  have all := int_digits isInt
  have kept : int.filter isDigit = int := List.filter_eq_self.mpr all
  have absent : unit '-' ∉ int := by
    intro member
    exact absurd (all _ member) (by decide)
  unfold digitCount
  rw [whole, List.filter_append, kept]
  cases isMinus with
  | inl none_ =>
    rw [none_, List.nil_append, List.erase_of_not_mem absent]
    rfl
  | inr some_ =>
    rw [some_, List.singleton_append, List.erase_cons_head]
    rfl

theorem decimalValue_append (a b : Text) :
    decimalValue (a ++ b) = b.foldl (fun n c => 10 * n + digitValue c) (decimalValue a) := List.foldl_append

theorem digitValue_lt {c : UInt16} (digit : isDigit c = true) : digitValue c < 10 := by
  unfold isDigit at digit
  rw [Bool.and_eq_true, decide_eq_true_eq, decide_eq_true_eq, UInt16.le_iff_toNat_le, UInt16.le_iff_toNat_le] at digit
  have high : c.toNat ≤ 57 := digit.2
  unfold digitValue
  omega

theorem decimalValue_lt {ds : Text} (all : ∀ c ∈ ds, isDigit c = true) : decimalValue ds < 10 ^ ds.length := by
  induction ds using List.reverseRecOn with
  | nil => decide
  | append_singleton ds d ih =>
    have before := ih fun c member => all c (List.mem_append_left _ member)
    have last := digitValue_lt (all d (by simp))
    rw [decimalValue_append, List.length_append, List.length_singleton, pow_succ]
    show 10 * decimalValue ds + digitValue d < _
    omega

theorem bigInt_integer {minus int : Text} (isMinus : Minus minus) (isInt : IntPart int) :
    bigInt (minus ++ int) = if minus = [] then (decimalValue int : ℤ) else -decimalValue int := by
  unfold bigInt
  rw [minusPart_integer isMinus isInt]
  by_cases none_ : minus = []
  · rw [if_pos none_, if_pos none_, none_, List.nil_append]
  · rw [if_neg none_, if_neg none_]

theorem bigInt_lt {token : Text} (integer : IntegerToken token) (short : digitCount token ≤ 20) : |bigInt token| < 10 ^ 20 := by
  obtain ⟨minus, int, whole, isMinus, isInt⟩ := integer
  have all := int_digits isInt
  have kept : int.filter isDigit = int := List.filter_eq_self.mpr all
  have noDigit : minus.filter isDigit = [] := by
    cases isMinus with
    | inl none_ => rw [none_]; rfl
    | inr some_ => rw [some_]; rfl
  have length : int.length ≤ 20 := by
    unfold digitCount at short
    rw [whole, List.filter_append, noDigit, kept, List.nil_append] at short
    exact short
  have bound : decimalValue int < 10 ^ 20 :=
    Nat.lt_of_lt_of_le (decimalValue_lt all) (Nat.pow_le_pow_right (by omega) length)
  rw [whole, bigInt_integer isMinus isInt]
  split
  · rw [abs_of_nonneg (by omega)]
    exact_mod_cast bound
  · rw [abs_neg, abs_of_nonneg (by omega)]
    exact_mod_cast bound

/-! ### Which tokens are kept, and as what -/

/-- Integers of at most 20 digits; and fractions that denote finite numbers, not integral or safe. -/
def Fine (token : Text) : Prop :=
  (IntegerToken token → digitCount token ≤ 20) ∧
    (¬IntegerToken token → ∃ q, number token = .finite q ∧ (q.isInt = true → |q| ≤ MAX_SAFE_INTEGER))

theorem numeric_some {token : Text} (grammar : NumberToken token) : (∃ n, numeric token = some n) ↔ Fine token := by
  unfold numeric
  by_cases calm : hasPoint token = false
  · have integer := (hasPoint_number grammar).mp calm
    rw [if_pos calm, erase_minus integer]
    constructor
    · intro kept
      refine ⟨fun _ => ?_, fun other => absurd integer other⟩
      obtain ⟨n, kept⟩ := kept
      by_cases long : 20 < digitCount token
      · rw [if_pos long] at kept
        cases kept
      · omega
    · intro fine
      have short := fine.1 integer
      rw [if_neg (by omega)]
      by_cases safe : MIN_SAFE_INTEGER ≤ bigInt token ∧ bigInt token ≤ MAX_SAFE_INTEGER
      · exact ⟨_, if_pos safe⟩
      · exact ⟨_, if_neg safe⟩
  · have other : ¬IntegerToken token := fun integer => calm ((hasPoint_number grammar).mpr integer)
    rw [if_neg calm]
    cases denoted : number token with
    | infinite =>
      rw [if_pos (.inl rfl)]
      constructor
      · intro kept
        obtain ⟨_, kept⟩ := kept
        cases kept
      · intro fine
        obtain ⟨q, same, _⟩ := fine.2 other
        rw [denoted] at same
        cases same
    | finite q =>
      by_cases unsafe_ : q.isInt = true ∧ ¬|q| ≤ MAX_SAFE_INTEGER
      · have refused : Double.finite q = .infinite ∨ (Double.finite q).isInteger ∧ ¬(Double.finite q).isSafeInteger := by
          refine .inr ⟨unsafe_.1, ?_⟩
          simp [Double.isSafeInteger, unsafe_]
        rw [if_pos refused]
        constructor
        · intro kept
          obtain ⟨_, kept⟩ := kept
          cases kept
        · intro fine
          obtain ⟨q', same, safe⟩ := fine.2 other
          rw [denoted] at same
          cases same
          exact absurd (safe unsafe_.1) unsafe_.2
      · have taken : ¬(Double.finite q = .infinite ∨ (Double.finite q).isInteger ∧ ¬(Double.finite q).isSafeInteger) := by
          simp only [Double.isInteger, Double.isSafeInteger, reduceCtorEq, false_or, Bool.and_eq_true, decide_eq_true_eq]
          intro both
          exact unsafe_ ⟨both.1, fun safe => both.2 ⟨both.1, safe⟩⟩
        rw [if_neg taken]
        refine ⟨fun _ => ⟨fun integer => absurd integer other, fun _ => ⟨q, denoted, ?_⟩⟩, fun _ => ⟨_, rfl⟩⟩
        intro integral
        exact not_not.mp fun large => unsafe_ ⟨integral, large⟩

/-- An integer is kept as it is. -/
theorem numeric_exact {token : Text} {n : Numeric} (integer : IntegerToken token) (kept : numeric token = some n) :
    n.value = .finite (bigInt token) := by
  unfold numeric at kept
  rw [if_pos ((hasPoint_number (integer_number integer)).mpr integer)] at kept
  by_cases long : 20 < (token.erase (unit '-')).length
  · rw [if_pos long] at kept
    cases kept
  · rw [if_neg long] at kept
    by_cases safe : MIN_SAFE_INTEGER ≤ bigInt token ∧ bigInt token ≤ MAX_SAFE_INTEGER
    · rw [if_pos safe] at kept
      cases kept
      refine round_small (abs_lt.mpr ?_)
      unfold MIN_SAFE_INTEGER MAX_SAFE_INTEGER at safe
      omega
    · rw [if_neg safe] at kept
      cases kept
      rfl

/-! ### Integers as texts -/

def decimal (n : ℕ) : Text := (Nat.toDigits 10 n).map unit

/-- `String` of an integer -/
def integerText (n : ℤ) : Text := if n < 0 then unit '-' :: decimal n.natAbs else decimal n.natAbs

theorem unit_digit {c : Char} (digit : c.isDigit = true) : isDigit (unit c) = true ∧ digitValue (unit c) = c.toNat - 48 := by
  have range : 48 ≤ c.toNat ∧ c.toNat ≤ 57 := by
    rw [Char.isDigit, Bool.and_eq_true, decide_eq_true_eq, decide_eq_true_eq] at digit
    exact ⟨UInt32.le_iff_toNat_le.mp digit.1, UInt32.le_iff_toNat_le.mp digit.2⟩
  have value : (unit c).toNat = c.toNat := Nat.mod_eq_of_lt (by omega)
  refine ⟨?_, congrArg (· - 48) value⟩
  unfold isDigit
  rw [Bool.and_eq_true, decide_eq_true_eq, decide_eq_true_eq, UInt16.le_iff_toNat_le, UInt16.le_iff_toNat_le, value]
  exact range

theorem decimal_digits (n : ℕ) : ∀ c ∈ decimal n, isDigit c = true := by
  intro c member
  obtain ⟨d, within, same⟩ := List.mem_map.mp member
  rw [← same]
  exact (unit_digit (Nat.isDigit_of_mem_toDigits (by omega) (by omega) within)).1

theorem decimalValue_decimal (n : ℕ) : decimalValue (decimal n) = n := by
  have same : ∀ (ds : List Char) (k : ℕ), (∀ c ∈ ds, c.isDigit = true) →
      (ds.map unit).foldl (fun n c => 10 * n + digitValue c) k = Nat.ofDigitChars 10 ds k := by
    intro ds
    induction ds with
    | nil => intros; rfl
    | cons d ds ih =>
      intro k all
      rw [List.map_cons, List.foldl_cons, Nat.ofDigitChars_cons, (unit_digit (all d List.mem_cons_self)).2]
      exact ih _ fun c member => all c (List.mem_cons_of_mem _ member)
  unfold decimalValue decimal
  rw [same _ _ fun c member => Nat.isDigit_of_mem_toDigits (by omega) (by omega) member]
  exact Nat.ofDigitChars_ten_toDigits

/-- No decimal number but zero begins with a zero. -/
theorem toDigits_head {n : ℕ} (positive : 0 < n) : ∃ d ds, Nat.toDigits 10 n = d :: ds ∧ d ≠ '0' := by
  induction n using Nat.strong_induction_on with
  | _ n ih =>
    by_cases small : n < 10
    · refine ⟨n.digitChar, [], Nat.toDigits_of_lt_base small, ?_⟩
      interval_cases n <;> decide
    · obtain ⟨d, ds, whole, other⟩ := ih (n / 10) (by omega) (by omega)
      refine ⟨d, ds ++ [(n % 10).digitChar], ?_, other⟩
      rw [Nat.toDigits_of_base_le (by omega) (by omega), whole, List.cons_append]

theorem intPart_decimal (n : ℕ) : IntPart (decimal n) := by
  by_cases zero : n = 0
  · rw [zero]
    exact .inl rfl
  · obtain ⟨d, ds, whole, other⟩ := @toDigits_head n (by omega)
    have all := decimal_digits n
    unfold decimal at all ⊢
    rw [whole, List.map_cons] at all ⊢
    obtain ⟨digit, rest⟩ := List.forall_mem_cons.mp all
    have isDigit_ : d.isDigit = true := Nat.isDigit_of_mem_toDigits (show 0 < 10 by omega) (by omega) (by rw [whole]; exact List.mem_cons_self)
    refine .inr ⟨_, _, rfl, ?_, digit, rest⟩
    intro same
    have range : 48 ≤ d.toNat := by
      rw [Char.isDigit, Bool.and_eq_true, decide_eq_true_eq, decide_eq_true_eq] at isDigit_
      exact UInt32.le_iff_toNat_le.mp isDigit_.1
    have value := (unit_digit isDigit_).2
    rw [same] at value
    have zero : d.toNat - 48 = 0 := value.symm
    exact other (Char.toNat_inj.mp (show d.toNat = '0'.toNat by have : '0'.toNat = 48 := rfl; omega))

theorem integerText_token (n : ℤ) : ∃ minus, integerText n = minus ++ decimal n.natAbs ∧ Minus minus ∧ (minus = [] ↔ ¬n < 0) := by
  unfold integerText
  by_cases negative : n < 0
  · rw [if_pos negative]
    exact ⟨[unit '-'], rfl, .inr rfl, by simp [negative]⟩
  · rw [if_neg negative]
    exact ⟨[], rfl, .inl rfl, by simp [negative]⟩

theorem integerText_integer (n : ℤ) : IntegerToken (integerText n) := by
  obtain ⟨minus, whole, isMinus, _⟩ := integerText_token n
  exact ⟨minus, _, whole, isMinus, intPart_decimal _⟩

theorem bigInt_integerText (n : ℤ) : bigInt (integerText n) = n := by
  obtain ⟨minus, whole, isMinus, sign⟩ := integerText_token n
  rw [whole, bigInt_integer isMinus (intPart_decimal _), decimalValue_decimal]
  by_cases negative : n < 0
  · rw [if_neg fun none_ => sign.mp none_ negative]
    omega
  · rw [if_pos (sign.mpr negative)]
    omega

theorem digitCount_integerText {n : ℤ} (small : |n| < 10 ^ 20) : digitCount (integerText n) ≤ 20 := by
  obtain ⟨minus, whole, isMinus, _⟩ := integerText_token n
  have noDigit : minus.filter isDigit = [] := by
    cases isMinus with
    | inl none_ => rw [none_]; rfl
    | inr some_ => rw [some_]; rfl
  have bound : n.natAbs < 10 ^ 20 := by
    rw [Int.abs_eq_natAbs] at small
    exact_mod_cast small
  unfold digitCount
  rw [whole, List.filter_append, noDigit, List.nil_append, List.filter_eq_self.mpr (decimal_digits _), decimal, List.length_map]
  exact (Nat.length_toDigits_le_iff (by omega) (by omega)).mpr bound

end HudsonSandbox.Wire
