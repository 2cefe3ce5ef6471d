import HudsonSandbox.Library.JsonText
import Mathlib.Data.List.TakeWhile
import Mathlib.Tactic.IntervalCases

/-!
# String literals of the TypeScript client

The client finds the end of a string literal itself and leaves its meaning to `JSON.parse`. Together they take
exactly the string tokens of the grammar, and what `JSON.stringify` writes is one.
-/

namespace HudsonSandbox.Wire
open JsonText

/-- How the parser and the writer fail. `unfinished` is no failure of the client: a recursion of the model was not
given enough steps. -/
inductive Failure where
  | protocol
  | request
  | unfinished
  deriving DecidableEq, Repr

/-! ### The platform's literals -/

/-- What a literal denotes behind its opening quotation mark. -/
def unquote : Text → Option Text
  | [] => none
  | c :: rest =>
    if c = unit '"' then
      if rest = [] then some [] else none
    else if c = unit '\\' then
      match rest with
      | [] => none
      | e :: rest =>
        if e = unit 'u' then
          match rest with
          | a :: b :: c :: d :: rest =>
            match hex4 a b c d with
            | none => none
            | some w => (unquote rest).map fun value => w :: value
          | _ => none
        else
          match escapes.find? fun entry => entry.1 = e with
          | none => none
          | some entry => (unquote rest).map fun value => entry.2 :: value
    else if c < 0x20 then none
    else (unquote rest).map fun value => c :: value

/-- `JSON.parse` of a text that begins with a quotation mark -/
def parseLiteral : Text → Option Text
  | [] => none
  | c :: rest => if c = unit '"' then unquote rest else none

def hexUnit (n : ℕ) : UInt16 := if n < 10 then UInt16.ofNat (48 + n) else UInt16.ofNat (87 + n)

/-- What `JSON.stringify` writes for a code unit of a well-formed text. -/
def quoteUnit (c : UInt16) : Text :=
  if c = unit '"' then [unit '\\', unit '"']
  else if c = unit '\\' then [unit '\\', unit '\\']
  else if c = 8 then [unit '\\', unit 'b']
  else if c = 12 then [unit '\\', unit 'f']
  else if c = 10 then [unit '\\', unit 'n']
  else if c = 13 then [unit '\\', unit 'r']
  else if c = 9 then [unit '\\', unit 't']
  else if c < 0x20 then [unit '\\', unit 'u', unit '0', unit '0', hexUnit (c.toNat / 16), hexUnit (c.toNat % 16)]
  else [c]

/-- `JSON.stringify` of a well-formed text -/
def quote (s : Text) : Text := unit '"' :: (s.flatMap quoteUnit ++ [unit '"'])

/-! ### The client's scan -/

/-- The text behind an opening quotation mark up to the closing one, and what follows it. -/
def scan : Text → Option (Text × Text)
  | [] => none
  | c :: rest =>
    if c = unit '"' then some ([c], rest)
    else if c = unit '\\' then
      match rest with
      | [] => none
      | e :: rest => (scan rest).map fun found => (c :: e :: found.1, found.2)
    else (scan rest).map fun found => (c :: found.1, found.2)

/-- A string at a quotation mark. -/
def string (s : Text) : Except Failure (Text × Text) :=
  match scan s.tail with
  | none => .error .protocol
  | some (found, rest) =>
    match parseLiteral (s.take 1 ++ found) with
    | none => .error .protocol
    | some value => if isWellFormed value then .ok (value, rest) else .error .protocol

theorem scan_whole {s found rest : Text} (scanned : scan s = some (found, rest)) : s = found ++ rest := by
  induction s using scan.induct generalizing found rest with
  | case1 => cases scanned
  | case2 s =>
    rw [scan.eq_def] at scanned
    cases scanned
    rfl
  | case3 other =>
    rw [scan.eq_def] at scanned
    cases scanned
  | case4 e s other ih =>
    rw [scan.eq_def] at scanned
    dsimp only at scanned
    rw [if_neg other, if_pos rfl] at scanned
    obtain ⟨inner, later, same⟩ := Option.map_eq_some_iff.mp scanned
    cases same
    rw [ih later]
    rfl
  | case5 c s other plain ih =>
    rw [scan.eq_def] at scanned
    dsimp only at scanned
    rw [if_neg other, if_neg plain] at scanned
    obtain ⟨inner, later, same⟩ := Option.map_eq_some_iff.mp scanned
    cases same
    rw [ih later]
    rfl

/-! ### Literals and the grammar -/

theorem escapes_find {e c : UInt16} (named : (e, c) ∈ escapes) : escapes.find? (fun entry => entry.1 = e) = some (e, c) := by
  have all : (escapes.all fun entry => escapes.find? (fun other => other.1 = entry.1) = some entry) = true := by decide
  exact of_decide_eq_true (List.all_eq_true.mp all (e, c) named)

theorem escapes_plain {e c : UInt16} (named : (e, c) ∈ escapes) : e ≠ unit 'u' := by
  have all : (escapes.all fun entry => entry.1 ≠ unit 'u') = true := by decide
  exact of_decide_eq_true (List.all_eq_true.mp all (e, c) named)

theorem hexDigit_plain {c w : UInt16} (digit : hexDigit c = some w) : c ≠ unit '"' ∧ c ≠ unit '\\' := by
  constructor
  · intro same
    have none_ : hexDigit (unit '"') = none := by decide
    rw [same, none_] at digit
    cases digit
  · intro same
    have none_ : hexDigit (unit '\\') = none := by decide
    rw [same, none_] at digit
    cases digit

theorem hex4_plain {a b c d w : UInt16} (named : hex4 a b c d = some w) : ∀ x ∈ [a, b, c, d], x ≠ unit '"' ∧ x ≠ unit '\\' := by
  unfold hex4 at named
  cases first : hexDigit a with
  | none =>
    rw [first] at named
    cases named
  | some a' =>
    cases second : hexDigit b with
    | none =>
      rw [first, second] at named
      cases named
    | some b' =>
      cases third : hexDigit c with
      | none =>
        rw [first, second, third] at named
        cases named
      | some c' =>
        cases fourth : hexDigit d with
        | none =>
          rw [first, second, third, fourth] at named
          cases named
        | some d' => simp [hexDigit_plain first, hexDigit_plain second, hexDigit_plain third, hexDigit_plain fourth]

theorem scan_cons {c : UInt16} {s : Text} (plain : c ≠ unit '"' ∧ c ≠ unit '\\') :
    scan (c :: s) = (scan s).map fun found => (c :: found.1, found.2) := by
  rw [scan.eq_def]
  dsimp only
  rw [if_neg plain.1, if_neg plain.2]

/-- The scan stops at the quotation mark that ends a literal. -/
theorem scan_chars {body value : Text} (chars : Chars body value) (rest : Text) :
    scan (body ++ unit '"' :: rest) = some (body ++ [unit '"'], rest) := by
  induction chars with
  | nil => rw [List.nil_append, scan.eq_def]; exact if_pos rfl
  | plain visible quote backslash _ ih =>
    rw [List.cons_append, scan_cons ⟨quote, backslash⟩, ih]
    rfl
  | escape named _ ih =>
    rw [List.cons_append, List.cons_append, scan.eq_def]
    dsimp only
    rw [if_neg (by decide), if_pos rfl, ih]
    rfl
  | unicode named _ ih =>
    obtain ⟨first, second, third, fourth⟩ : _ ∧ _ ∧ _ ∧ _ := by simpa using hex4_plain named
    simp only [List.cons_append]
    rw [scan.eq_def]
    dsimp only
    rw [if_neg (by decide), if_pos rfl, scan_cons first, scan_cons second, scan_cons third, scan_cons fourth, ih]
    rfl

theorem unquote_chars {body value : Text} (chars : Chars body value) : unquote (body ++ [unit '"']) = some value := by
  induction chars with
  | nil => rw [List.nil_append, unquote.eq_def]; rfl
  | plain visible quote backslash _ ih =>
    rw [List.cons_append, unquote.eq_def]
    dsimp only
    rw [if_neg quote, if_neg backslash, if_neg (UInt16.not_lt.mpr visible), ih]
    rfl
  | escape named _ ih =>
    rw [List.cons_append, List.cons_append, unquote.eq_def]
    dsimp only
    rw [if_neg (by decide), if_pos rfl, if_neg (escapes_plain named), escapes_find named]
    dsimp only
    rw [ih]
    rfl
  | unicode named _ ih =>
    simp only [List.cons_append]
    rw [unquote.eq_def]
    dsimp only
    rw [if_neg (by decide), if_pos rfl, if_pos rfl, named]
    dsimp only
    rw [ih]
    rfl

/-- What the platform accepts is a literal of the grammar. -/
theorem unquote_some {s value : Text} (denotes : unquote s = some value) : ∃ body, s = body ++ [unit '"'] ∧ Chars body value := by
  induction s using unquote.induct generalizing value with
  | case1 => cases denotes
  | case2 =>
    rw [unquote.eq_def] at denotes
    cases denotes
    exact ⟨[], rfl, .nil⟩
  | case3 rest more =>
    rw [unquote.eq_def] at denotes
    dsimp only at denotes
    rw [if_pos rfl, if_neg more] at denotes
    cases denotes
  | case4 other =>
    rw [unquote.eq_def] at denotes
    cases denotes
  | case5 a b c d rest unnamed other =>
    rw [unquote.eq_def] at denotes
    dsimp only at denotes
    rw [if_neg other, if_pos rfl, if_pos rfl, unnamed] at denotes
    cases denotes
  | case6 a b c d rest w named other ih =>
    rw [unquote.eq_def] at denotes
    dsimp only at denotes
    rw [if_neg other, if_pos rfl, if_pos rfl, named] at denotes
    obtain ⟨value', later, same⟩ := Option.map_eq_some_iff.mp denotes
    obtain ⟨body, whole, chars⟩ := ih later
    refine ⟨unit '\\' :: unit 'u' :: a :: b :: c :: d :: body, by rw [whole]; rfl, ?_⟩
    rw [← same]
    exact .unicode named chars
  | case7 rest short other =>
    rw [unquote.eq_def] at denotes
    dsimp only at denotes
    rw [if_neg other, if_pos rfl, if_pos rfl] at denotes
    split at denotes
    next a b c d rest => exact absurd rfl (short a b c d rest)
    next => cases denotes
  | case8 e rest plain unnamed other =>
    rw [unquote.eq_def] at denotes
    dsimp only at denotes
    rw [if_neg other, if_pos rfl, if_neg plain, unnamed] at denotes
    cases denotes
  | case9 e rest plain entry named other ih =>
    rw [unquote.eq_def] at denotes
    dsimp only at denotes
    rw [if_neg other, if_pos rfl, if_neg plain, named] at denotes
    obtain ⟨value', later, same⟩ := Option.map_eq_some_iff.mp denotes
    obtain ⟨body, whole, chars⟩ := ih later
    have member := List.mem_of_find?_eq_some named
    have found := List.find?_some named
    have key : entry.1 = e := of_decide_eq_true found
    refine ⟨unit '\\' :: e :: body, by rw [whole]; rfl, ?_⟩
    rw [← same, ← key]
    exact .escape member chars
  | case10 c rest other plain low =>
    rw [unquote.eq_def] at denotes
    dsimp only at denotes
    rw [if_neg other, if_neg plain, if_pos low] at denotes
    cases denotes
  | case11 c rest other plain high ih =>
    rw [unquote.eq_def] at denotes
    dsimp only at denotes
    rw [if_neg other, if_neg plain, if_neg high] at denotes
    obtain ⟨value', later, same⟩ := Option.map_eq_some_iff.mp denotes
    obtain ⟨body, whole, chars⟩ := ih later
    refine ⟨c :: body, by rw [whole]; rfl, ?_⟩
    rw [← same]
    exact .plain (UInt16.not_lt.mp high) other plain chars

/-- A string that the client takes is a string token of a well-formed text. -/
theorem string_ok {s value rest : Text} (quoted : s.head? = some (unit '"')) (taken : string s = .ok (value, rest)) :
    ∃ token, s = token ++ rest ∧ StringToken token value ∧ isWellFormed value = true := by
  cases s with
  | nil => cases quoted
  | cons q s =>
    cases quoted
    unfold string at taken
    cases scanned : scan s with
    | none =>
      rw [List.tail_cons, scanned] at taken
      cases taken
    | some found =>
      obtain ⟨found, rest'⟩ := found
      rw [List.tail_cons, scanned] at taken
      dsimp only at taken
      cases denotes : unquote found with
      | none =>
        rw [show parseLiteral ((unit '"' :: s).take 1 ++ found) = unquote found from rfl, denotes] at taken
        cases taken
      | some value' =>
        rw [show parseLiteral ((unit '"' :: s).take 1 ++ found) = unquote found from rfl, denotes] at taken
        dsimp only at taken
        by_cases wellFormed : isWellFormed value' = true
        · rw [if_pos wellFormed] at taken
          cases taken
          obtain ⟨body, whole, chars⟩ := unquote_some denotes
          refine ⟨unit '"' :: found, ?_, ⟨body, by rw [whole], chars⟩, wellFormed⟩
          rw [scan_whole scanned]
          rfl
        · rw [if_neg wellFormed] at taken
          cases taken

/-- A string token is taken whole, if its text is well formed. -/
theorem string_token {token value : Text} (is_token : StringToken token value) (rest : Text) :
    string (token ++ rest) = if isWellFormed value then .ok (value, rest) else .error .protocol := by
  obtain ⟨body, whole, chars⟩ := is_token
  have scanned := scan_chars chars rest
  have behind : (token ++ rest).tail = body ++ unit '"' :: rest := by simp [whole]
  have front : (token ++ rest).take 1 = [unit '"'] := by simp [whole]
  have literal : parseLiteral ([unit '"'] ++ (body ++ [unit '"'])) = unquote (body ++ [unit '"']) := rfl
  unfold string
  rw [behind, scanned, front]
  dsimp only
  rw [literal, unquote_chars chars]

/-! ### What is written -/

theorem hexUnit_digit {n : ℕ} (small : n < 16) : hexDigit (hexUnit n) = some (UInt16.ofNat n) := by
  interval_cases n <;> decide

/-- A code unit is written as what it is read from. -/
theorem chars_quoteUnit (c : UInt16) {body value : Text} (chars : Chars body value) : Chars (quoteUnit c ++ body) (c :: value) := by
  unfold quoteUnit
  by_cases quote : c = unit '"'
  · rw [if_pos quote, quote]
    exact .escape (by decide) chars
  by_cases backslash : c = unit '\\'
  · rw [if_neg quote, if_pos backslash, backslash]
    exact .escape (by decide) chars
  rw [if_neg quote, if_neg backslash]
  by_cases backspace : c = 8
  · rw [if_pos backspace, backspace]
    exact .escape (by decide) chars
  by_cases feed : c = 12
  · rw [if_neg backspace, if_pos feed, feed]
    exact .escape (by decide) chars
  rw [if_neg backspace, if_neg feed]
  by_cases newline : c = 10
  · rw [if_pos newline, newline]
    exact .escape (by decide) chars
  by_cases carriage : c = 13
  · rw [if_neg newline, if_pos carriage, carriage]
    exact .escape (by decide) chars
  rw [if_neg newline, if_neg carriage]
  by_cases tab : c = 9
  · rw [if_pos tab, tab]
    exact .escape (by decide) chars
  rw [if_neg tab]
  by_cases control : c < 0x20
  · rw [if_pos control]
    have small : c.toNat < 32 := UInt16.lt_iff_toNat_lt.mp control
    have zero : hexDigit (unit '0') = some 0 := by decide
    have named : hex4 (unit '0') (unit '0') (hexUnit (c.toNat / 16)) (hexUnit (c.toNat % 16)) = some c := by
      unfold hex4
      rw [zero, hexUnit_digit (by omega), hexUnit_digit (by omega)]
      dsimp only
      congr 1
      apply UInt16.toNat_inj.mp
      simp
      omega
    exact .unicode named chars
  · rw [if_neg control]
    exact .plain (UInt16.not_lt.mp control) quote backslash chars

theorem quote_token (s : Text) : StringToken (quote s) s := by
  refine ⟨s.flatMap quoteUnit, rfl, ?_⟩
  induction s with
  | nil => exact .nil
  | cons c s ih => exact chars_quoteUnit c ih

end HudsonSandbox.Wire
