import HudsonSandbox.Client.Literals
import HudsonSandbox.Client.Numerals
import HudsonSandbox.Library.Checked

/-!
# The JSON parser of the TypeScript client

The parser goes through a text with one cursor; here the cursor is what of the text is left. It takes exactly the
JSON texts whose documents meet the client's limits, each as its document with every integer as it is.
-/

namespace HudsonSandbox.Wire
open JsonText Checked

abbrev JsonValue := Document Numeric

/-! ### The parser -/

def ws (s : Text) : Text := s.dropWhile isSpace

def literals : List (Text × JsonValue) := [(text "true", .bool true), (text "false", .bool false), (text "null", .null)]

/-- A literal or a number. -/
def scalar (s : Text) : Except Failure (JsonValue × Text) :=
  match literals.find? fun literal => literal.1.isPrefixOf s with
  | some literal => .ok (literal.2, s.drop literal.1.length)
  | none =>
    match numberToken s with
    | none => .error .protocol
    | some (token, rest) =>
      match numeric token with
      | none => .error .protocol
      | some n => .ok (.number n, rest)

mutual
def value : ℕ → ℕ → Text → Except Failure (JsonValue × Text)
  | 0, _, _ => .error .unfinished
  | fuel + 1, depth, s =>
    if 128 < depth then .error .protocol
    else if (ws s).head? = some (unit '"') then (string (ws s)).map fun taken => (.string taken.1, taken.2)
    else if (ws s).head? = some (unit '\x7b') then
      if (ws (ws s).tail).head? = some (unit '\x7d') then .ok (.object [], (ws (ws s).tail).tail)
      else members fuel depth [] (ws (ws s).tail)
    else if (ws s).head? = some (unit '[') then
      if (ws (ws s).tail).head? = some (unit ']') then .ok (.array [], (ws (ws s).tail).tail)
      else elements fuel depth [] (ws (ws s).tail)
    else scalar (ws s)

/-- The loop over the members of an object. -/
def members : ℕ → ℕ → List (Text × JsonValue) → Text → Except Failure (JsonValue × Text)
  | 0, _, _, _ => .error .unfinished
  | fuel + 1, depth, result, s =>
    if (ws s).head? ≠ some (unit '"') then .error .protocol
    else
      match string (ws s) with
      | .error failure => .error failure
      | .ok (key, s) =>
        if key ∈ result.map Prod.fst then .error .protocol
        else if (ws s).head? ≠ some (unit ':') then .error .protocol
        else
          match value fuel (depth + 1) (ws s).tail with
          | .error failure => .error failure
          | .ok (v, s) =>
            if (ws s).head? = some (unit '\x7d') then .ok (.object (result ++ [(key, v)]), (ws s).tail)
            else if (ws s).head? ≠ some (unit ',') then .error .protocol
            else members fuel depth (result ++ [(key, v)]) (ws s).tail

/-- The loop over the items of an array. -/
def elements : ℕ → ℕ → List JsonValue → Text → Except Failure (JsonValue × Text)
  | 0, _, _, _ => .error .unfinished
  | fuel + 1, depth, result, s =>
    match value fuel (depth + 1) s with
    | .error failure => .error failure
    | .ok (v, s) =>
      if (ws s).head? = some (unit ']') then .ok (.array (result ++ [v]), (ws s).tail)
      else if (ws s).head? ≠ some (unit ',') then .error .protocol
      else elements fuel depth (result ++ [v]) (ws s).tail
end

def parseJson (source : Text) : Except Failure JsonValue :=
  match value (2 * source.length + 1) 0 source with
  | .error failure => .error failure
  | .ok (result, rest) => if ws rest = [] then .ok result else .error .protocol

/-! ### What is taken -/

/-- What the client asks of a value: numbers it can keep, well-formed strings, and keys that are distinct. -/
def Kept : Document Text → Prop
  | .number token => Fine token
  | .string s => isWellFormed s = true
  | .object entries => (entries.map Prod.fst).Nodup ∧ ∀ entry ∈ entries, isWellFormed entry.1 = true
  | _ => True

/-- Everything in a document is kept, and lies no deeper than the client goes. -/
def Good (depth : ℕ) (doc : Document Text) : Prop := Document.Everywhere (fun n v => n ≤ 128 ∧ Kept v) depth doc

/-- The document with every number as the client keeps it. -/
def Represents (doc : Document Text) (v : JsonValue) : Prop := v.map some = doc.map numeric

/-- What may stand behind a value. -/
def Delimited (rest : Text) : Prop := ∀ c ∈ rest.head?, isSpace c = true ∨ c = unit ',' ∨ c = unit ']' ∨ c = unit '\x7d'

theorem Delimited.stops {rest : Text} (delimited : Delimited rest) : Stops rest := by
  intro c head
  rcases delimited c head with space | same | same | same
  · unfold isSpace at space
    simp only [Bool.or_eq_true, decide_eq_true_eq] at space
    rcases space with ((same | same) | same) | same <;> rw [same] <;> decide
  · rw [same]
    decide
  · rw [same]
    decide
  · rw [same]
    decide

theorem ws_whole (s : Text) : ∃ w, s = w ++ ws s ∧ Space w :=
  ⟨s.takeWhile isSpace, List.takeWhile_append_dropWhile.symm, fun _ member => List.mem_takeWhile_imp member⟩

/-- White space is passed over up to something else. -/
theorem ws_append {w s : Text} (space : Space w) (other : ∀ c ∈ s.head?, isSpace c = false) : ws (w ++ s) = s := by
  unfold ws
  rw [List.dropWhile_append_of_pos space]
  cases s with
  | nil => rfl
  | cons c s => simp [other c rfl]

theorem ws_cons {w s : Text} {c : UInt16} (space : Space w) (other : isSpace c = false) : ws (w ++ c :: s) = c :: s := by
  apply ws_append space
  intro c' head
  cases head
  exact other

theorem space_delimited {w rest : Text} (space : Space w) (delimited : Delimited rest) : Delimited (w ++ rest) := by
  cases w with
  | nil => exact delimited
  | cons c w =>
    intro c' head
    cases head
    exact .inl (space c List.mem_cons_self)

theorem delimited_cons {c : UInt16} {rest : Text} (mark : c = unit ',' ∨ c = unit ']' ∨ c = unit '\x7d') : Delimited (c :: rest) := by
  intro c' head
  cases head
  exact .inr mark

theorem number_head {token rest : Text} (grammar : NumberToken token) :
    ∃ c s, token ++ rest = c :: s ∧ (c = unit '-' ∨ isDigit c = true) := by
  obtain ⟨minus, int, frac, exp, whole, isMinus, isInt, _⟩ := grammar
  obtain ⟨d, ds, int_, digit, _⟩ := int_head isInt
  rw [whole, int_]
  cases isMinus with
  | inl none_ =>
    rw [none_]
    exact ⟨d, _, rfl, .inr digit⟩
  | inr some_ =>
    rw [some_]
    exact ⟨unit '-', _, rfl, .inl rfl⟩

/-! ### Literals and numbers -/

theorem cons_of_head {s : Text} {c : UInt16} (head : s.head? = some c) : s = c :: s.tail := by
  cases s with
  | nil => cases head
  | cons c' s =>
    cases head
    rfl

theorem good_leaf {depth : ℕ} {doc : Document Text} (leaf : doc.IsLeaf) : Good depth doc ↔ depth ≤ 128 ∧ Kept doc :=
  Document.everywhere_leaf leaf

/-- Literals begin with letters. -/
theorem literals_head {literal : Text × JsonValue} (member : literal ∈ literals) :
    ∃ c behind, literal.1 = c :: behind ∧ ¬(c = unit '-' ∨ isDigit c = true) := by
  simp only [literals, List.mem_cons, List.not_mem_nil, or_false] at member
  rcases member with rfl | rfl | rfl
  · exact ⟨_, _, rfl, by decide⟩
  · exact ⟨_, _, rfl, by decide⟩
  · exact ⟨_, _, rfl, by decide⟩

theorem literals_none {s : Text} (other : ∀ c ∈ s.head?, c = unit '-' ∨ isDigit c = true) :
    literals.find? (fun literal => literal.1.isPrefixOf s) = none := by
  rw [List.find?_eq_none]
  intro literal member is_prefix
  obtain ⟨behind, whole⟩ := List.isPrefixOf_iff_prefix.mp is_prefix
  obtain ⟨c, more, front, letter⟩ := literals_head member
  rw [front] at whole
  have head : c ∈ s.head? := by
    rw [← whole]
    rfl
  exact letter (other c head)

theorem scalar_number {token rest : Text} (grammar : NumberToken token) (stops : Stops rest) :
    scalar (token ++ rest) = match numeric token with
      | none => .error .protocol
      | some n => .ok (.number n, rest) := by
  obtain ⟨c, s, whole, mark⟩ := @number_head token rest grammar
  have none_ : literals.find? (fun literal => literal.1.isPrefixOf (token ++ rest)) = none := by
    apply literals_none
    intro c' head
    rw [whole] at head
    cases head
    exact mark
  unfold scalar
  rw [none_, numberToken_append grammar stops]

theorem scalar_ok {s rest : Text} {v : JsonValue} (taken : scalar s = .ok (v, rest)) :
    ∃ doc a, s = a ++ rest ∧ Reads doc a ∧ doc.IsLeaf ∧ Kept doc ∧ Represents doc v := by
  have reads : ∀ literal ∈ literals, ∃ doc : Document Text, Reads doc literal.1 ∧ doc.IsLeaf ∧ Kept doc ∧ Represents doc literal.2 := by
    intro literal member
    simp only [literals, List.mem_cons, List.not_mem_nil, or_false] at member
    rcases member with rfl | rfl | rfl
    · exact ⟨.bool true, rfl, trivial, trivial, rfl⟩
    · exact ⟨.bool false, rfl, trivial, trivial, rfl⟩
    · exact ⟨.null, rfl, trivial, trivial, rfl⟩
  unfold scalar at taken
  cases found : literals.find? fun literal => literal.1.isPrefixOf s with
  | some literal =>
    rw [found] at taken
    cases taken
    obtain ⟨doc, read, leaf, kept, same⟩ := reads literal (List.mem_of_find?_eq_some found)
    have is_prefix := List.find?_some found
    refine ⟨doc, literal.1, ?_, read, leaf, kept, same⟩
    exact (List.prefix_iff_eq_append.mp (List.isPrefixOf_iff_prefix.mp is_prefix)).symm
  | none =>
    rw [found] at taken
    dsimp only at taken
    cases scanned : numberToken s with
    | none =>
      rw [scanned] at taken
      cases taken
    | some found =>
      obtain ⟨token, rest'⟩ := found
      rw [scanned] at taken
      dsimp only at taken
      obtain ⟨whole, grammar⟩ := numberToken_some scanned
      cases kept : numeric token with
      | none =>
        rw [kept] at taken
        cases taken
      | some n =>
        rw [kept] at taken
        cases taken
        refine ⟨.number token, token, whole, ⟨rfl, grammar⟩, trivial, (numeric_some grammar).mp ⟨n, kept⟩, ?_⟩
        show Document.number (some n) = .number (numeric token)
        rw [kept]

/-! ### What is taken is a JSON text -/

/-- Values stand for documents one by one. -/
def RepresentsItems (docs : List (Document Text)) (items : List JsonValue) : Prop :=
  items.map (Document.map some) = docs.map (Document.map numeric)

def RepresentsEntries (docs : List (Text × Document Text)) (entries : List (Text × JsonValue)) : Prop :=
  (entries.map fun entry => (entry.1, entry.2.map some)) = docs.map fun entry => (entry.1, entry.2.map numeric)

theorem represents_array {docs : List (Document Text)} {items : List JsonValue} (same : RepresentsItems docs items) :
    Represents (.array docs) (.array items) := by
  unfold Represents
  rw [Document.map_array, Document.map_array, same]

theorem represents_object {docs : List (Text × Document Text)} {entries : List (Text × JsonValue)}
    (same : RepresentsEntries docs entries) : Represents (.object docs) (.object entries) := by
  unfold Represents
  rw [Document.map_object, Document.map_object, same]

theorem representsEntries_keys {docs : List (Text × Document Text)} {entries : List (Text × JsonValue)}
    (same : RepresentsEntries docs entries) : entries.map Prod.fst = docs.map Prod.fst := by
  have keys := congrArg (List.map Prod.fst) same
  rw [List.map_map, List.map_map] at keys
  exact keys

/-- Items behind a comma are items again. -/
theorem readsMoreItems_cons {d : Document Text} {docs : List (Document Text)} {t : Text} (reads : ReadsItems (d :: docs) t) :
    ReadsMoreItems (d :: docs) (unit ',' :: t) := by
  obtain ⟨w, a, w', more, whole, parts⟩ := reads
  exact ⟨w, a, w', more, by rw [whole], parts⟩

theorem readsMoreEntries_cons {entry : Text × Document Text} {docs : List (Text × Document Text)} {t : Text}
    (reads : ReadsEntries (entry :: docs) t) : ReadsMoreEntries (entry :: docs) (unit ',' :: t) := by
  obtain ⟨w, k, x, y, a, w', more, whole, parts⟩ := reads
  exact ⟨w, k, x, y, a, w', more, by rw [whole], parts⟩

theorem readsMoreItems_comma {d : Document Text} {docs : List (Document Text)} {more : Text} (reads : ReadsMoreItems (d :: docs) more) :
    ∃ t, more = unit ',' :: t ∧ ReadsItems (d :: docs) t := by
  obtain ⟨w, a, w', more', whole, parts⟩ := reads
  exact ⟨_, whole, w, a, w', more', rfl, parts⟩

theorem readsMoreEntries_comma {entry : Text × Document Text} {docs : List (Text × Document Text)} {more : Text}
    (reads : ReadsMoreEntries (entry :: docs) more) : ∃ t, more = unit ',' :: t ∧ ReadsEntries (entry :: docs) t := by
  obtain ⟨w, k, x, y, a, w', more', whole, parts⟩ := reads
  exact ⟨_, whole, w, k, x, y, a, w', more', rfl, parts⟩

theorem fresh_nodup {keys : List Text} {key : Text} (distinct : keys.Nodup) (fresh : key ∉ keys) : (keys ++ [key]).Nodup := by
  refine List.nodup_append.mpr ⟨distinct, List.nodup_singleton _, ?_⟩
  intro k before k' last same
  rw [List.mem_singleton.mp last] at same
  rw [same] at before
  exact fresh before

/-- What a recursion of `fuel` steps takes. -/
structure Sound (fuel : ℕ) : Prop where
  value : ∀ {depth s v rest}, value fuel depth s = .ok (v, rest) →
    ∃ w doc a, s = w ++ (a ++ rest) ∧ Space w ∧ Reads doc a ∧ Good depth doc ∧ Represents doc v
  members : ∀ {depth result s v rest}, members fuel depth result s = .ok (v, rest) → (result.map Prod.fst).Nodup →
    ∃ entry docs entries body, s = body ++ unit '\x7d' :: rest ∧ ReadsEntries (entry :: docs) body ∧
      (∀ e ∈ entry :: docs, isWellFormed e.1 = true ∧ Good (depth + 1) e.2) ∧
      v = .object (result ++ entries) ∧ ((result ++ entries).map Prod.fst).Nodup ∧ RepresentsEntries (entry :: docs) entries
  elements : ∀ {depth result s v rest}, elements fuel depth result s = .ok (v, rest) →
    ∃ doc docs items body, s = body ++ unit ']' :: rest ∧ ReadsItems (doc :: docs) body ∧
      (∀ d ∈ doc :: docs, Good (depth + 1) d) ∧ v = .array (result ++ items) ∧ RepresentsItems (doc :: docs) items

theorem Sound.elements_step {fuel : ℕ} (sound : Sound fuel) {depth : ℕ} {result : List JsonValue} {s rest : Text} {v : JsonValue}
    (taken : Wire.elements (fuel + 1) depth result s = .ok (v, rest)) :
    ∃ doc docs items body, s = body ++ unit ']' :: rest ∧ ReadsItems (doc :: docs) body ∧
      (∀ d ∈ doc :: docs, Good (depth + 1) d) ∧ v = .array (result ++ items) ∧ RepresentsItems (doc :: docs) items := by
  rw [Wire.elements] at taken
  cases item : Wire.value fuel (depth + 1) s with
  | error failure =>
    rw [item] at taken
    cases taken
  | ok found =>
    obtain ⟨v', s'⟩ := found
    rw [item] at taken
    dsimp only at taken
    obtain ⟨w, doc, a, whole, space, reads, good, same⟩ := sound.value item
    obtain ⟨w', behind, space'⟩ := ws_whole s'
    have front : s = w ++ (a ++ (w' ++ ws s')) := by rw [whole, ← behind]
    by_cases last : (ws s').head? = some (unit ']')
    · rw [if_pos last] at taken
      cases taken
      have closed := cons_of_head last
      refine ⟨doc, [], [v'], w ++ (a ++ w'), ?_, ⟨w, a, w', [], by simp, space, reads, space', rfl⟩, ?_, rfl, ?_⟩
      · rw [closed] at front
        rw [front]
        simp
      · intro d member
        rw [List.mem_singleton.mp member]
        exact good
      · exact congrArg (fun d => [d]) same
    · by_cases comma : (ws s').head? = some (unit ',')
      · rw [if_neg last, if_neg (not_not.mpr comma)] at taken
        have closed := cons_of_head comma
        obtain ⟨doc', docs, items, body, whole', reads', goods, value, same'⟩ := sound.elements taken
        refine ⟨doc, doc' :: docs, v' :: items, w ++ (a ++ (w' ++ unit ',' :: body)), ?_,
          ⟨w, a, w', unit ',' :: body, by simp, space, reads, space', readsMoreItems_cons reads'⟩, ?_, ?_, ?_⟩
        · rw [closed, whole'] at front
          rw [front]
          simp
        · exact List.forall_mem_cons.mpr ⟨good, goods⟩
        · rw [value, List.append_assoc]
          rfl
        · unfold RepresentsItems at same' ⊢
          rw [List.map_cons, List.map_cons, same', same]
      · rw [if_neg last, if_pos comma] at taken
        cases taken

theorem Sound.members_step {fuel : ℕ} (sound : Sound fuel) {depth : ℕ} {result : List (Text × JsonValue)} {s rest : Text}
    {v : JsonValue} (taken : Wire.members (fuel + 1) depth result s = .ok (v, rest)) (distinct : (result.map Prod.fst).Nodup) :
    ∃ entry docs entries body, s = body ++ unit '\x7d' :: rest ∧ ReadsEntries (entry :: docs) body ∧
      (∀ e ∈ entry :: docs, isWellFormed e.1 = true ∧ Good (depth + 1) e.2) ∧
      v = .object (result ++ entries) ∧ ((result ++ entries).map Prod.fst).Nodup ∧ RepresentsEntries (entry :: docs) entries := by
  rw [Wire.members] at taken
  obtain ⟨w, front, space⟩ := ws_whole s
  by_cases quoted : (ws s).head? = some (unit '"')
  · rw [if_neg (not_not.mpr quoted)] at taken
    cases name : string (ws s) with
    | error failure =>
      rw [name] at taken
      cases taken
    | ok found =>
      obtain ⟨key, s₁⟩ := found
      rw [name] at taken
      dsimp only at taken
      obtain ⟨k, key_whole, is_token, well⟩ := string_ok quoted name
      by_cases again : key ∈ result.map Prod.fst
      · rw [if_pos again] at taken
        cases taken
      rw [if_neg again] at taken
      obtain ⟨x, behind₁, space₁⟩ := ws_whole s₁
      by_cases colon : (ws s₁).head? = some (unit ':')
      · rw [if_neg (not_not.mpr colon)] at taken
        have colon_ := cons_of_head colon
        cases item : Wire.value fuel (depth + 1) (ws s₁).tail with
        | error failure =>
          rw [item] at taken
          cases taken
        | ok found =>
          obtain ⟨v', s₂⟩ := found
          rw [item] at taken
          dsimp only at taken
          obtain ⟨y, doc, a, whole, space₂, reads, good, same⟩ := sound.value item
          obtain ⟨w', behind₂, space₃⟩ := ws_whole s₂
          have front_ : s = w ++ (k ++ (x ++ unit ':' :: (y ++ (a ++ (w' ++ ws s₂))))) := by
            rw [front, key_whole, behind₁, colon_, whole, ← behind₂]
          have next : ((result ++ [(key, v')]).map Prod.fst).Nodup := by
            rw [List.map_append]
            exact fresh_nodup distinct again
          by_cases last : (ws s₂).head? = some (unit '\x7d')
          · rw [if_pos last] at taken
            cases taken
            have closed := cons_of_head last
            refine ⟨(key, doc), [], [(key, v')], w ++ (k ++ (x ++ unit ':' :: (y ++ (a ++ w')))), ?_,
              ⟨w, k, x, y, a, w', [], by simp, space, is_token, space₁, space₂, reads, space₃, rfl⟩, ?_, rfl, next, ?_⟩
            · rw [closed] at front_
              rw [front_]
              simp
            · intro e member
              rw [List.mem_singleton.mp member]
              exact ⟨well, good⟩
            · exact congrArg (fun d => [(key, d)]) same
          · by_cases comma : (ws s₂).head? = some (unit ',')
            · rw [if_neg last, if_neg (not_not.mpr comma)] at taken
              have closed := cons_of_head comma
              obtain ⟨entry', docs, entries, body, whole', reads', goods, value, distinct', same'⟩ := sound.members taken next
              refine ⟨(key, doc), entry' :: docs, (key, v') :: entries,
                w ++ (k ++ (x ++ unit ':' :: (y ++ (a ++ (w' ++ unit ',' :: body))))), ?_,
                ⟨w, k, x, y, a, w', unit ',' :: body, rfl, space, is_token, space₁, space₂, reads, space₃,
                  readsMoreEntries_cons reads'⟩, ?_, ?_, ?_, ?_⟩
              · rw [closed, whole'] at front_
                rw [front_]
                simp
              · exact List.forall_mem_cons.mpr ⟨⟨well, good⟩, goods⟩
              · rw [value, List.append_assoc]
                rfl
              · rw [List.append_assoc] at distinct'
                exact distinct'
              · unfold RepresentsEntries at same' ⊢
                rw [List.map_cons, List.map_cons, same']
                exact congrArg (fun d => (key, d) :: _) same
            · rw [if_neg last, if_pos comma] at taken
              cases taken
      · rw [if_pos colon] at taken
        cases taken
  · rw [if_pos quoted] at taken
    cases taken

theorem Sound.value_step {fuel : ℕ} (sound : Sound fuel) {depth : ℕ} {s rest : Text} {v : JsonValue}
    (taken : Wire.value (fuel + 1) depth s = .ok (v, rest)) :
    ∃ w doc a, s = w ++ (a ++ rest) ∧ Space w ∧ Reads doc a ∧ Good depth doc ∧ Represents doc v := by
  rw [Wire.value] at taken
  obtain ⟨w, front, space⟩ := ws_whole s
  by_cases deep : 128 < depth
  · rw [if_pos deep] at taken
    cases taken
  rw [if_neg deep] at taken
  have level : depth ≤ 128 := Nat.le_of_not_lt deep
  by_cases quoted : (ws s).head? = some (unit '"')
  · rw [if_pos quoted] at taken
    obtain ⟨found, name, same⟩ := map_ok.mp taken
    obtain ⟨found, rest'⟩ := found
    cases same
    obtain ⟨token, whole, is_token, well⟩ := string_ok quoted name
    exact ⟨w, .string found, token, by rw [front, whole], space, is_token, (@good_leaf depth (.string found) trivial).mpr ⟨level, well⟩, rfl⟩
  rw [if_neg quoted] at taken
  by_cases brace : (ws s).head? = some (unit '\x7b')
  · rw [if_pos brace] at taken
    have opened := cons_of_head brace
    obtain ⟨w', behind, space'⟩ := ws_whole (ws s).tail
    by_cases empty : (ws (ws s).tail).head? = some (unit '\x7d')
    · rw [if_pos empty] at taken
      cases taken
      have closed := cons_of_head empty
      refine ⟨w, .object [], unit '\x7b' :: (w' ++ [unit '\x7d']), ?_, space, ⟨w', rfl, space'⟩,
        Document.everywhere_object.mpr ⟨⟨level, List.nodup_nil, by simp⟩, by simp⟩, rfl⟩
      rw [closed] at behind
      rw [behind] at opened
      rw [opened] at front
      exact front.trans (by simp)
    · rw [if_neg empty] at taken
      obtain ⟨entry, docs, entries, body, whole, reads, goods, same, distinct, represents⟩ := sound.members taken List.nodup_nil
      rw [List.nil_append] at same distinct
      rw [representsEntries_keys represents] at distinct
      have reads' : ReadsEntries (entry :: docs) (w' ++ body) := by
        obtain ⟨w₁, k, x, y, a, w₂, more, text, space₁, parts⟩ := reads
        refine ⟨w' ++ w₁, k, x, y, a, w₂, more, by rw [text]; simp, ?_, parts⟩
        intro c member
        exact (List.mem_append.mp member).elim (space' c) (space₁ c)
      refine ⟨w, .object (entry :: docs), unit '\x7b' :: ((w' ++ body) ++ [unit '\x7d']), ?_, space, ⟨_, rfl, reads'⟩,
        Document.everywhere_object.mpr ⟨⟨level, distinct, fun e member => (goods e member).1⟩, fun e member => (goods e member).2⟩, ?_⟩
      · rw [whole] at behind
        rw [behind] at opened
        rw [opened] at front
        exact front.trans (by simp)
      · rw [same]
        exact represents_object represents
  rw [if_neg brace] at taken
  by_cases bracket : (ws s).head? = some (unit '[')
  · rw [if_pos bracket] at taken
    have opened := cons_of_head bracket
    obtain ⟨w', behind, space'⟩ := ws_whole (ws s).tail
    by_cases empty : (ws (ws s).tail).head? = some (unit ']')
    · rw [if_pos empty] at taken
      cases taken
      have closed := cons_of_head empty
      refine ⟨w, .array [], unit '[' :: (w' ++ [unit ']']), ?_, space, ⟨w', rfl, space'⟩,
        Document.everywhere_array.mpr ⟨⟨level, trivial⟩, by simp⟩, rfl⟩
      rw [closed] at behind
      rw [behind] at opened
      rw [opened] at front
      exact front.trans (by simp)
    · rw [if_neg empty] at taken
      obtain ⟨doc, docs, items, body, whole, reads, goods, same, represents⟩ := sound.elements taken
      rw [List.nil_append] at same
      have reads' : ReadsItems (doc :: docs) (w' ++ body) := by
        obtain ⟨w₁, a, w₂, more, text, space₁, parts⟩ := reads
        refine ⟨w' ++ w₁, a, w₂, more, by rw [text]; simp, ?_, parts⟩
        intro c member
        exact (List.mem_append.mp member).elim (space' c) (space₁ c)
      refine ⟨w, .array (doc :: docs), unit '[' :: ((w' ++ body) ++ [unit ']']), ?_, space, ⟨_, rfl, reads'⟩,
        Document.everywhere_array.mpr ⟨⟨level, trivial⟩, goods⟩, ?_⟩
      · rw [whole] at behind
        rw [behind] at opened
        rw [opened] at front
        exact front.trans (by simp)
      · rw [same]
        exact represents_array represents
  rw [if_neg bracket] at taken
  obtain ⟨doc, a, whole, reads, leaf, kept, same⟩ := scalar_ok taken
  exact ⟨w, doc, a, by rw [front, whole], space, reads, (good_leaf leaf).mpr ⟨level, kept⟩, same⟩

/-- Whatever the parser takes is the text of a document within its limits. -/
theorem sound (fuel : ℕ) : Sound fuel := by
  induction fuel with
  | zero =>
    constructor
    · intro depth s v rest taken
      rw [Wire.value] at taken
      cases taken
    · intro depth result s v rest taken
      rw [Wire.members] at taken
      cases taken
    · intro depth result s v rest taken
      rw [Wire.elements] at taken
      cases taken
  | succ fuel ih => exact ⟨ih.value_step, ih.members_step, ih.elements_step⟩

/-! ### The parser comes to an end -/

theorem ws_length (s : Text) : (ws s).length ≤ s.length := (List.dropWhile_suffix isSpace).length_le

theorem behind_length {s : Text} {c : UInt16} (head : (ws s).head? = some c) : (ws s).tail.length + 1 ≤ s.length := by
  have whole := congrArg List.length (cons_of_head head)
  have less := ws_length s
  rw [List.length_cons] at whole
  omega

theorem string_finished (s : Text) : string s ≠ .error .unfinished := by
  unfold string
  intro failed
  split at failed
  next => cases failed
  next =>
    split at failed
    next => cases failed
    next => split at failed <;> cases failed

theorem scalar_finished (s : Text) : scalar s ≠ .error .unfinished := by
  unfold scalar
  intro failed
  split at failed
  next => cases failed
  next =>
    split at failed
    next => cases failed
    next => split at failed <;> cases failed

theorem value_length {fuel depth : ℕ} {s rest : Text} {v : JsonValue} (taken : value fuel depth s = .ok (v, rest)) :
    rest.length ≤ s.length := by
  obtain ⟨w, doc, a, whole, _⟩ := (sound fuel).value taken
  rw [whole, List.length_append, List.length_append]
  omega

/-- A recursion with two steps for every code unit comes to an end. -/
structure Finished (fuel : ℕ) : Prop where
  value : ∀ {depth s}, 2 * s.length < fuel → value fuel depth s ≠ .error .unfinished
  members : ∀ {depth result s}, 2 * s.length + 1 < fuel → members fuel depth result s ≠ .error .unfinished
  elements : ∀ {depth result s}, 2 * s.length + 1 < fuel → elements fuel depth result s ≠ .error .unfinished

theorem Finished.value_step {fuel : ℕ} (finished : Finished fuel) {depth : ℕ} {s : Text} (enough : 2 * s.length < fuel + 1) :
    Wire.value (fuel + 1) depth s ≠ .error .unfinished := by
  rw [Wire.value]
  by_cases deep : 128 < depth
  · rw [if_pos deep]
    intro failed
    cases failed
  rw [if_neg deep]
  by_cases quoted : (ws s).head? = some (unit '"')
  · rw [if_pos quoted]
    intro failed
    cases name : string (ws s) with
    | error failure =>
      rw [name] at failed
      cases failed
      exact string_finished _ name
    | ok found =>
      rw [name] at failed
      cases failed
  rw [if_neg quoted]
  by_cases brace : (ws s).head? = some (unit '\x7b')
  · rw [if_pos brace]
    have less := behind_length brace
    have less' := ws_length (ws s).tail
    by_cases empty : (ws (ws s).tail).head? = some (unit '\x7d')
    · rw [if_pos empty]
      intro failed
      cases failed
    · rw [if_neg empty]
      exact finished.members (by omega)
  rw [if_neg brace]
  by_cases bracket : (ws s).head? = some (unit '[')
  · rw [if_pos bracket]
    have less := behind_length bracket
    have less' := ws_length (ws s).tail
    by_cases empty : (ws (ws s).tail).head? = some (unit ']')
    · rw [if_pos empty]
      intro failed
      cases failed
    · rw [if_neg empty]
      exact finished.elements (by omega)
  rw [if_neg bracket]
  exact scalar_finished _

theorem Finished.elements_step {fuel : ℕ} (finished : Finished fuel) {depth : ℕ} {result : List JsonValue} {s : Text}
    (enough : 2 * s.length + 1 < fuel + 1) : Wire.elements (fuel + 1) depth result s ≠ .error .unfinished := by
  rw [Wire.elements]
  cases item : Wire.value fuel (depth + 1) s with
  | error failure =>
    intro failed
    cases failed
    exact finished.value (by omega) item
  | ok found =>
    obtain ⟨v, s'⟩ := found
    have shorter := value_length item
    dsimp only
    by_cases last : (ws s').head? = some (unit ']')
    · rw [if_pos last]
      intro failed
      cases failed
    · by_cases comma : (ws s').head? = some (unit ',')
      · have less := behind_length comma
        rw [if_neg last, if_neg (not_not.mpr comma)]
        exact finished.elements (by omega)
      · rw [if_neg last, if_pos comma]
        intro failed
        cases failed

theorem Finished.members_step {fuel : ℕ} (finished : Finished fuel) {depth : ℕ} {result : List (Text × JsonValue)} {s : Text}
    (enough : 2 * s.length + 1 < fuel + 1) : Wire.members (fuel + 1) depth result s ≠ .error .unfinished := by
  rw [Wire.members]
  by_cases quoted : (ws s).head? = some (unit '"')
  · rw [if_neg (not_not.mpr quoted)]
    cases name : string (ws s) with
    | error failure =>
      intro failed
      cases failed
      exact string_finished _ name
    | ok found =>
      obtain ⟨key, s₁⟩ := found
      obtain ⟨k, whole, _⟩ := string_ok quoted name
      have less := ws_length s
      have shorter : s₁.length ≤ (ws s).length := by
        rw [whole, List.length_append]
        omega
      dsimp only
      by_cases again : key ∈ result.map Prod.fst
      · rw [if_pos again]
        intro failed
        cases failed
      rw [if_neg again]
      by_cases colon : (ws s₁).head? = some (unit ':')
      · rw [if_neg (not_not.mpr colon)]
        have less₁ := behind_length colon
        cases item : Wire.value fuel (depth + 1) (ws s₁).tail with
        | error failure =>
          intro failed
          cases failed
          exact finished.value (by omega) item
        | ok found =>
          obtain ⟨v, s₂⟩ := found
          have shorter₂ := value_length item
          dsimp only
          by_cases last : (ws s₂).head? = some (unit '\x7d')
          · rw [if_pos last]
            intro failed
            cases failed
          · by_cases comma : (ws s₂).head? = some (unit ',')
            · have less₂ := behind_length comma
              rw [if_neg last, if_neg (not_not.mpr comma)]
              exact finished.members (by omega)
            · rw [if_neg last, if_pos comma]
              intro failed
              cases failed
      · rw [if_pos colon]
        intro failed
        cases failed
  · rw [if_pos quoted]
    intro failed
    cases failed

theorem finished (fuel : ℕ) : Finished fuel := by
  induction fuel with
  | zero => exact ⟨fun enough => by omega, fun enough => by omega, fun enough => by omega⟩
  | succ fuel ih => exact ⟨ih.value_step, ih.members_step, ih.elements_step⟩

/-! ### What is a JSON text is taken -/

/-- The parser takes the texts of a document exactly where the document is within its limits. -/
def Complete (doc : Document Text) : Prop :=
  ∀ {fuel depth : ℕ} {w a rest : Text}, Reads doc a → Space w → Delimited rest → 2 * (w ++ (a ++ rest)).length < fuel →
    (Good depth doc → ∃ v, Represents doc v ∧ value fuel depth (w ++ (a ++ rest)) = .ok (v, rest)) ∧
      (¬Good depth doc → value fuel depth (w ++ (a ++ rest)) = .error .protocol)

/-- The rules of `value`, by the first code unit behind the white space. -/
theorem value_scalar {fuel depth : ℕ} {w s : Text} {c : UInt16} (space : Space w) (level : depth ≤ 128)
    (head : s.head? = some c) (other : isSpace c = false ∧ c ≠ unit '"' ∧ c ≠ unit '\x7b' ∧ c ≠ unit '[') :
    value (fuel + 1) depth (w ++ s) = scalar s := by
  have read : ws (w ++ s) = s := by
    apply ws_append space
    intro c' head'
    rw [head] at head'
    cases head'
    exact other.1
  have front : ∀ c', c ≠ c' → s.head? ≠ some c' := by
    intro c' different same
    rw [head] at same
    exact different (Option.some.inj same)
  rw [value, if_neg (by omega), read, if_neg (front _ other.2.1), if_neg (front _ other.2.2.1), if_neg (front _ other.2.2.2)]

theorem value_deep {fuel depth : ℕ} {s : Text} (deep : 128 < depth) : value (fuel + 1) depth s = .error .protocol := by
  rw [value, if_pos deep]

theorem complete_leaf {doc : Document Text} (leaf : doc.IsLeaf)
    (read : ∀ {fuel depth : ℕ} {w a rest : Text}, Reads doc a → Space w → Delimited rest → depth ≤ 128 →
      (Kept doc → ∃ v, Represents doc v ∧ value (fuel + 1) depth (w ++ (a ++ rest)) = .ok (v, rest)) ∧
        (¬Kept doc → value (fuel + 1) depth (w ++ (a ++ rest)) = .error .protocol)) : Complete doc := by
  intro fuel depth w a rest reads space delimited enough
  obtain ⟨fuel, rfl⟩ : ∃ k, fuel = k + 1 := ⟨fuel - 1, by omega⟩
  rw [good_leaf leaf]
  by_cases deep : 128 < depth
  · exact ⟨fun good => absurd good.1 (by omega), fun _ => value_deep deep⟩
  · obtain ⟨taken, refused⟩ := @read fuel depth w a rest reads space delimited (by omega)
    exact ⟨fun good => taken good.2, fun bad => refused fun kept => bad ⟨by omega, kept⟩⟩

theorem complete_null : Complete .null := by
  apply @complete_leaf .null trivial
  intro fuel depth w a rest reads space delimited level
  have read := @value_scalar fuel depth w (text "null" ++ rest) (unit 'n') space level rfl (by decide)
  rw [reads, read]
  exact ⟨fun _ => ⟨.null, rfl, rfl⟩, fun bad => absurd trivial bad⟩

theorem complete_bool (b : Bool) : Complete (.bool b) := by
  apply @complete_leaf (.bool b) trivial
  intro fuel depth w a rest reads space delimited level
  cases b with
  | true =>
    have read := @value_scalar fuel depth w (text "true" ++ rest) (unit 't') space level rfl (by decide)
    rw [reads, read]
    exact ⟨fun _ => ⟨.bool true, rfl, rfl⟩, fun bad => absurd trivial bad⟩
  | false =>
    have read := @value_scalar fuel depth w (text "false" ++ rest) (unit 'f') space level rfl (by decide)
    rw [reads, read]
    exact ⟨fun _ => ⟨.bool false, rfl, rfl⟩, fun bad => absurd trivial bad⟩

/-- What a number begins with begins nothing else. -/
theorem number_plain {c : UInt16} (mark : c = unit '-' ∨ isDigit c = true) : isSpace c = false ∧ c ≠ unit ']' ∧ c ≠ unit '\x7d' := by
  cases mark with
  | inl minus =>
    rw [minus]
    decide
  | inr digit =>
    refine ⟨?_, ?_, ?_⟩
    · rw [Bool.eq_false_iff]
      intro space
      unfold isSpace at space
      simp only [Bool.or_eq_true, decide_eq_true_eq] at space
      rcases space with ((same | same) | same) | same <;> rw [same] at digit <;> exact absurd digit (by decide)
    · intro same
      rw [same] at digit
      exact absurd digit (by decide)
    · intro same
      rw [same] at digit
      exact absurd digit (by decide)

theorem number_opens {c : UInt16} (mark : c = unit '-' ∨ isDigit c = true) : c ≠ unit '"' ∧ c ≠ unit '\x7b' ∧ c ≠ unit '[' := by
  refine ⟨?_, ?_, ?_⟩ <;> intro same <;> rw [same] at mark <;> exact absurd mark (by decide)

theorem complete_number (token : Text) : Complete (.number token) := by
  apply @complete_leaf (.number token) trivial
  intro fuel depth w a rest reads space delimited level
  obtain ⟨same, grammar⟩ := reads
  subst same
  obtain ⟨c, s, whole, mark⟩ := @number_head a rest grammar
  have other : isSpace c = false ∧ c ≠ unit '"' ∧ c ≠ unit '\x7b' ∧ c ≠ unit '[' := ⟨(number_plain mark).1, number_opens mark⟩
  have read := @value_scalar fuel depth w (a ++ rest) c space level (by rw [whole]; rfl) other
  rw [read, scalar_number grammar delimited.stops]
  cases kept : numeric a with
  | none =>
    refine ⟨?_, fun _ => rfl⟩
    intro fine
    obtain ⟨n, some_⟩ := (numeric_some grammar).mpr fine
    rw [kept] at some_
    cases some_
  | some n =>
    refine ⟨fun _ => ⟨.number n, ?_, rfl⟩, fun bad => absurd ((numeric_some grammar).mp ⟨n, kept⟩) bad⟩
    show Document.number (some n) = .number (numeric a)
    rw [kept]

theorem complete_string (s : Text) : Complete (.string s) := by
  apply @complete_leaf (.string s) trivial
  intro fuel depth w a rest reads space delimited level
  have taken := @string_token a s reads rest
  obtain ⟨body, whole, chars⟩ := reads
  have read : ws (w ++ (a ++ rest)) = a ++ rest := by
    rw [whole]
    exact ws_cons space (by decide)
  have quoted : (a ++ rest).head? = some (unit '"') := by
    rw [whole]
    rfl
  rw [value, if_neg (by omega), read, if_pos quoted, taken]
  by_cases well : isWellFormed s = true
  · rw [if_pos well]
    exact ⟨fun _ => ⟨.string s, rfl, rfl⟩, fun bad => absurd well bad⟩
  · rw [if_neg well]
    exact ⟨fun good => absurd good well, fun _ => rfl⟩

/-- A value does not begin with white space, nor with the end of an array. -/
theorem reads_head {doc : Document Text} {a : Text} (reads : Reads doc a) :
    ∃ c s, a = c :: s ∧ isSpace c = false ∧ c ≠ unit ']' ∧ c ≠ unit '\x7d' := by
  cases doc with
  | null => exact ⟨_, _, reads, by decide⟩
  | bool b =>
    cases b with
    | true => exact ⟨_, _, reads, by decide⟩
    | false => exact ⟨_, _, reads, by decide⟩
  | number token =>
    obtain ⟨same, grammar⟩ := reads
    obtain ⟨c, s, whole, mark⟩ := @number_head token [] grammar
    rw [List.append_nil] at whole
    exact ⟨c, s, same.trans whole, number_plain mark⟩
  | string s =>
    obtain ⟨body, whole, _⟩ := reads
    exact ⟨_, _, whole, by decide⟩
  | array items =>
    obtain ⟨body, whole, _⟩ := reads
    exact ⟨_, _, whole, by decide⟩
  | object entries =>
    obtain ⟨body, whole, _⟩ := reads
    exact ⟨_, _, whole, by decide⟩

theorem elements_last {fuel depth : ℕ} {result : List JsonValue} {s w rest : Text} {v : JsonValue} (space : Space w)
    (item : value fuel (depth + 1) s = .ok (v, w ++ unit ']' :: rest)) :
    elements (fuel + 1) depth result s = .ok (.array (result ++ [v]), rest) := by
  have read : ws (w ++ unit ']' :: rest) = unit ']' :: rest := ws_cons space (by decide)
  rw [elements, item]
  dsimp only
  rw [read]
  exact if_pos rfl

theorem elements_comma {fuel depth : ℕ} {result : List JsonValue} {s w rest : Text} {v : JsonValue} (space : Space w)
    (item : value fuel (depth + 1) s = .ok (v, w ++ unit ',' :: rest)) :
    elements (fuel + 1) depth result s = elements fuel depth (result ++ [v]) rest := by
  have read : ws (w ++ unit ',' :: rest) = unit ',' :: rest := ws_cons space (by decide)
  have other : (unit ',' :: rest).head? ≠ some (unit ']') := fun same => absurd (Option.some.inj same) (by decide)
  rw [elements, item]
  dsimp only
  rw [read, if_neg other, if_neg (not_not.mpr List.head?_cons)]
  rfl

theorem complete_items {doc : Document Text} {docs : List (Document Text)} (each : ∀ d ∈ doc :: docs, Complete d)
    {fuel depth : ℕ} {result : List JsonValue} {body rest : Text} (reads : ReadsItems (doc :: docs) body)
    (enough : 2 * (body ++ unit ']' :: rest).length + 1 < fuel) :
    ((∀ d ∈ doc :: docs, Good (depth + 1) d) → ∃ items, RepresentsItems (doc :: docs) items ∧
      elements fuel depth result (body ++ unit ']' :: rest) = .ok (.array (result ++ items), rest)) ∧
    (¬(∀ d ∈ doc :: docs, Good (depth + 1) d) → elements fuel depth result (body ++ unit ']' :: rest) = .error .protocol) := by
  obtain ⟨fuel, rfl⟩ : ∃ k, fuel = k + 1 := ⟨fuel - 1, by omega⟩
  induction docs generalizing doc fuel result body with
  | nil =>
    obtain ⟨w, a, w', more, whole, space, read, space', none_⟩ := reads
    have none_ : more = [] := none_
    subst none_
    have split : body ++ unit ']' :: rest = w ++ (a ++ (w' ++ unit ']' :: rest)) := by simp [whole]
    rw [split] at enough ⊢
    have delimited := space_delimited space' (@delimited_cons (unit ']') rest (.inr (.inl rfl)))
    obtain ⟨taken, refused⟩ := @each doc List.mem_cons_self fuel (depth + 1) w a _ read space delimited (by omega)
    constructor
    · intro goods
      obtain ⟨v, same, item⟩ := taken (goods doc List.mem_cons_self)
      exact ⟨[v], congrArg (fun d => [d]) same, elements_last space' item⟩
    · intro bad
      have item := refused fun good => bad fun d member => by rw [List.mem_singleton.mp member]; exact good
      rw [elements, item]
  | cons doc' docs ih =>
    obtain ⟨w, a, w', more, whole, space, read, space', reads'⟩ := reads
    obtain ⟨body', comma, reads'⟩ := readsMoreItems_comma reads'
    have split : body ++ unit ']' :: rest = w ++ (a ++ (w' ++ unit ',' :: (body' ++ unit ']' :: rest))) := by simp [whole, comma]
    rw [split] at enough ⊢
    have delimited := space_delimited space' (@delimited_cons (unit ',') (body' ++ unit ']' :: rest) (.inl rfl))
    obtain ⟨taken, refused⟩ := @each doc List.mem_cons_self fuel (depth + 1) w a _ read space delimited (by omega)
    by_cases good : Good (depth + 1) doc
    · obtain ⟨v, same, item⟩ := taken good
      obtain ⟨fuel, rfl⟩ : ∃ k, fuel = k + 1 := ⟨fuel - 1, by omega⟩
      have shorter : 2 * (body' ++ unit ']' :: rest).length + 1 < fuel + 1 := by
        simp only [List.length_append, List.length_cons] at enough ⊢
        omega
      obtain ⟨later, refused'⟩ := @ih doc' (fun d member => each d (List.mem_cons_of_mem _ member)) (result ++ [v]) body' reads' fuel shorter
      rw [elements_comma space' item]
      constructor
      · intro goods
        obtain ⟨items, same', value⟩ := later fun d member => goods d (List.mem_cons_of_mem _ member)
        refine ⟨v :: items, ?_, by rw [value, List.append_assoc]; rfl⟩
        unfold RepresentsItems at same' ⊢
        rw [List.map_cons, List.map_cons, same', same]
      · intro bad
        exact refused' fun goods => bad (List.forall_mem_cons.mpr ⟨good, goods⟩)
    · refine ⟨fun goods => absurd (goods doc List.mem_cons_self) good, fun _ => ?_⟩
      rw [elements, refused good]

theorem complete_array {docs : List (Document Text)} (each : ∀ d ∈ docs, Complete d) : Complete (.array docs) := by
  intro fuel depth w a rest reads space delimited enough
  obtain ⟨fuel, rfl⟩ : ∃ k, fuel = k + 1 := ⟨fuel - 1, by omega⟩
  obtain ⟨body, whole, reads⟩ := reads
  have split : w ++ (a ++ rest) = w ++ unit '[' :: (body ++ unit ']' :: rest) := by simp [whole]
  have read : ws (w ++ (a ++ rest)) = unit '[' :: (body ++ unit ']' :: rest) := by
    rw [split]
    exact ws_cons space (by decide)
  have enough' : 2 * (body ++ unit ']' :: rest).length + 1 < fuel := by
    rw [split] at enough
    simp only [List.length_append, List.length_cons] at enough ⊢
    omega
  have notString : (unit '[' :: (body ++ unit ']' :: rest)).head? ≠ some (unit '"') := fun same => absurd (Option.some.inj same) (by decide)
  have notObject : (unit '[' :: (body ++ unit ']' :: rest)).head? ≠ some (unit '\x7b') := fun same => absurd (Option.some.inj same) (by decide)
  unfold Good
  rw [Document.everywhere_array]
  by_cases deep : 128 < depth
  · exact ⟨fun good => absurd good.1.1 (by omega), fun _ => value_deep deep⟩
  have start : value (fuel + 1) depth (w ++ (a ++ rest)) =
      if (ws (body ++ unit ']' :: rest)).head? = some (unit ']') then .ok (.array [], (ws (body ++ unit ']' :: rest)).tail)
      else elements fuel depth [] (ws (body ++ unit ']' :: rest)) := by
    rw [value, if_neg deep, read, if_neg notString, if_neg notObject, if_pos List.head?_cons, List.tail_cons]
  rw [start]
  cases docs with
  | nil =>
    have space' : Space body := reads
    have closed : ws (body ++ unit ']' :: rest) = unit ']' :: rest := ws_cons space' (by decide)
    rw [closed, if_pos List.head?_cons]
    refine ⟨fun _ => ⟨.array [], rfl, rfl⟩, fun bad => absurd ⟨⟨by omega, trivial⟩, by simp⟩ bad⟩
  | cons doc docs =>
    obtain ⟨w₁, a₁, w₂, more, text, space₁, read₁, parts⟩ := reads
    obtain ⟨c, s, front, other⟩ := reads_head read₁
    have trimmed : ws (body ++ unit ']' :: rest) = a₁ ++ (w₂ ++ more) ++ unit ']' :: rest := by
      rw [text]
      have whole' : w₁ ++ (a₁ ++ (w₂ ++ more)) ++ unit ']' :: rest = w₁ ++ (c :: (s ++ (w₂ ++ more) ++ unit ']' :: rest)) := by simp [front]
      rw [whole', ws_cons space₁ other.1, front]
      simp
    have open_ : (a₁ ++ (w₂ ++ more) ++ unit ']' :: rest).head? ≠ some (unit ']') := by
      rw [front]
      intro same
      exact other.2.1 (Option.some.inj same)
    have enough₁ : 2 * ((a₁ ++ (w₂ ++ more)) ++ unit ']' :: rest).length + 1 < fuel := by
      rw [text] at enough'
      simp only [List.length_append, List.length_cons] at enough' ⊢
      omega
    have reads' : ReadsItems (doc :: docs) (a₁ ++ (w₂ ++ more)) := ⟨[], a₁, w₂, more, rfl, fun _ member => absurd member List.not_mem_nil, read₁, parts⟩
    obtain ⟨taken, refused⟩ := @complete_items doc docs each fuel depth [] _ rest reads' enough₁
    rw [trimmed, if_neg open_]
    constructor
    · intro good
      obtain ⟨items, same, value⟩ := taken good.2
      exact ⟨_, represents_array same, value⟩
    · intro bad
      exact refused fun goods => bad ⟨⟨by omega, trivial⟩, goods⟩

/-- The text of a member up to its value. -/
structure Member (key : Text) (s s' : Text) : Prop where
  split : ∃ w k x, s = w ++ (k ++ (x ++ unit ':' :: s')) ∧ Space w ∧ StringToken k key ∧ Space x

theorem Member.read {key s s' : Text} (member : Member key s s') :
    (ws s).head? = some (unit '"') ∧ ∃ x, Space x ∧
      string (ws s) = if isWellFormed key then .ok (key, x ++ unit ':' :: s') else .error .protocol := by
  obtain ⟨w, k, x, whole, space, is_token, space'⟩ := member
  have taken := string_token is_token (x ++ unit ':' :: s')
  obtain ⟨body, token, chars⟩ := is_token
  have read : ws s = k ++ (x ++ unit ':' :: s') := by
    rw [whole, token]
    exact ws_cons space (by decide)
  rw [read]
  refine ⟨?_, x, space', taken⟩
  rw [token]
  rfl

/-- A member whose key is not taken makes the object fail. -/
theorem members_refused {fuel depth : ℕ} {result : List (Text × JsonValue)} {key s s' : Text} (member : Member key s s')
    (refused : isWellFormed key = true → key ∈ result.map Prod.fst) : members (fuel + 1) depth result s = .error .protocol := by
  obtain ⟨quoted, x, space, taken⟩ := member.read
  rw [members, if_neg (not_not.mpr quoted), taken]
  by_cases well : isWellFormed key = true
  · rw [if_pos well]
    exact if_pos (refused well)
  · rw [if_neg well]

theorem members_value {fuel depth : ℕ} {result : List (Text × JsonValue)} {key s s' : Text} (member : Member key s s')
    (well : isWellFormed key = true) (fresh : key ∉ result.map Prod.fst) :
    members (fuel + 1) depth result s = match value fuel (depth + 1) s' with
      | .error failure => .error failure
      | .ok (v, s) =>
        if (ws s).head? = some (unit '\x7d') then .ok (.object (result ++ [(key, v)]), (ws s).tail)
        else if (ws s).head? ≠ some (unit ',') then .error .protocol
        else members fuel depth (result ++ [(key, v)]) (ws s).tail := by
  obtain ⟨quoted, x, space, taken⟩ := member.read
  have colon : ws (x ++ unit ':' :: s') = unit ':' :: s' := ws_cons space (by decide)
  rw [members, if_neg (not_not.mpr quoted), taken, if_pos well]
  dsimp only
  rw [if_neg fresh, colon, if_neg (not_not.mpr List.head?_cons), List.tail_cons]

theorem members_last {fuel depth : ℕ} {result : List (Text × JsonValue)} {key s s' w rest : Text} {v : JsonValue}
    (member : Member key s s') (well : isWellFormed key = true) (fresh : key ∉ result.map Prod.fst) (space : Space w)
    (item : value fuel (depth + 1) s' = .ok (v, w ++ unit '\x7d' :: rest)) :
    members (fuel + 1) depth result s = .ok (.object (result ++ [(key, v)]), rest) := by
  have read : ws (w ++ unit '\x7d' :: rest) = unit '\x7d' :: rest := ws_cons space (by decide)
  rw [members_value member well fresh, item]
  dsimp only
  rw [read]
  exact if_pos rfl

theorem members_comma {fuel depth : ℕ} {result : List (Text × JsonValue)} {key s s' w rest : Text} {v : JsonValue}
    (member : Member key s s') (well : isWellFormed key = true) (fresh : key ∉ result.map Prod.fst) (space : Space w)
    (item : value fuel (depth + 1) s' = .ok (v, w ++ unit ',' :: rest)) :
    members (fuel + 1) depth result s = members fuel depth (result ++ [(key, v)]) rest := by
  have read : ws (w ++ unit ',' :: rest) = unit ',' :: rest := ws_cons space (by decide)
  have other : (unit ',' :: rest).head? ≠ some (unit '\x7d') := fun same => absurd (Option.some.inj same) (by decide)
  rw [members_value member well fresh, item]
  dsimp only
  rw [read, if_neg other, if_neg (not_not.mpr List.head?_cons)]
  rfl

/-- The entries of an object are kept, behind those that were taken before. -/
def GoodEntries (depth : ℕ) (result : List (Text × JsonValue)) (docs : List (Text × Document Text)) : Prop :=
  (∀ e ∈ docs, isWellFormed e.1 = true ∧ Good (depth + 1) e.2) ∧ (result.map Prod.fst ++ docs.map Prod.fst).Nodup

theorem goodEntries_cons {depth : ℕ} {result : List (Text × JsonValue)} {entry : Text × Document Text}
    {docs : List (Text × Document Text)} {v : JsonValue} (well : isWellFormed entry.1 = true) (good : Good (depth + 1) entry.2) :
    GoodEntries depth result (entry :: docs) ↔ GoodEntries depth (result ++ [(entry.1, v)]) docs := by
  have keys : result.map Prod.fst ++ (entry :: docs).map Prod.fst =
      (result ++ [(entry.1, v)]).map Prod.fst ++ docs.map Prod.fst := by simp
  unfold GoodEntries
  rw [keys, List.forall_mem_cons]
  exact and_congr_left fun _ => and_iff_right ⟨well, good⟩

theorem complete_entries {entry : Text × Document Text} {docs : List (Text × Document Text)}
    (each : ∀ e ∈ entry :: docs, Complete e.2) {fuel depth : ℕ} {result : List (Text × JsonValue)} {body rest : Text}
    (reads : ReadsEntries (entry :: docs) body) (enough : 2 * (body ++ unit '\x7d' :: rest).length + 1 < fuel) 
    (distinct : (result.map Prod.fst).Nodup) :
    (GoodEntries depth result (entry :: docs) → ∃ entries, RepresentsEntries (entry :: docs) entries ∧
      members fuel depth result (body ++ unit '\x7d' :: rest) = .ok (.object (result ++ entries), rest)) ∧
    (¬GoodEntries depth result (entry :: docs) → members fuel depth result (body ++ unit '\x7d' :: rest) = .error .protocol) := by
  obtain ⟨fuel, rfl⟩ : ∃ k, fuel = k + 1 := ⟨fuel - 1, by omega⟩
  induction docs generalizing entry fuel result body with
  | nil =>
    obtain ⟨key, doc⟩ := entry
    obtain ⟨w, k, x, y, a, w', more, whole, space, is_token, space₁, space₂, read, space', none_⟩ := reads
    have none_ : more = [] := none_
    subst none_
    have split : body ++ unit '\x7d' :: rest = w ++ (k ++ (x ++ unit ':' :: (y ++ (a ++ (w' ++ unit '\x7d' :: rest))))) := by simp [whole]
    have member : Member key (body ++ unit '\x7d' :: rest) (y ++ (a ++ (w' ++ unit '\x7d' :: rest))) :=
      ⟨w, k, x, split, space, is_token, space₁⟩
    have delimited := space_delimited space' (@delimited_cons (unit '\x7d') rest (.inr (.inr rfl)))
    have shorter : 2 * (y ++ (a ++ (w' ++ unit '\x7d' :: rest))).length < fuel := by
      rw [split] at enough
      simp only [List.length_append, List.length_cons] at enough ⊢
      omega
    obtain ⟨taken, refused⟩ := @each (key, doc) List.mem_cons_self fuel (depth + 1) y a _ read space₂ delimited shorter
    by_cases well : isWellFormed key = true
    · by_cases fresh : key ∈ result.map Prod.fst
      · refine ⟨fun goods => ?_, fun _ => members_refused member fun _ => fresh⟩
        exact absurd rfl ((List.nodup_append.mp goods.2).2.2 key fresh key List.mem_cons_self)
      · by_cases good : Good (depth + 1) doc
        · obtain ⟨v, same, item⟩ := taken good
          refine ⟨fun _ => ⟨[(key, v)], congrArg (fun d => [(key, d)]) same, members_last member well fresh space' item⟩, ?_⟩
          intro bad
          refine absurd ((@goodEntries_cons depth result (key, doc) [] v well good).mpr ⟨by simp, ?_⟩) bad
          rw [List.map_append, List.map_nil, List.append_nil]
          exact fresh_nodup distinct fresh
        · refine ⟨fun goods => absurd (goods.1 (key, doc) List.mem_cons_self).2 good, fun _ => ?_⟩
          rw [members_value member well fresh, refused good]
    · refine ⟨fun goods => absurd (goods.1 (key, doc) List.mem_cons_self).1 well, fun _ => ?_⟩
      exact members_refused member fun well' => absurd well' well
  | cons entry' docs ih =>
    obtain ⟨key, doc⟩ := entry
    obtain ⟨w, k, x, y, a, w', more, whole, space, is_token, space₁, space₂, read, space', reads'⟩ := reads
    obtain ⟨body', comma, reads'⟩ := readsMoreEntries_comma reads'
    have split : body ++ unit '\x7d' :: rest =
        w ++ (k ++ (x ++ unit ':' :: (y ++ (a ++ (w' ++ unit ',' :: (body' ++ unit '\x7d' :: rest)))))) := by simp [whole, comma]
    have member : Member key (body ++ unit '\x7d' :: rest) (y ++ (a ++ (w' ++ unit ',' :: (body' ++ unit '\x7d' :: rest)))) :=
      ⟨w, k, x, split, space, is_token, space₁⟩
    have delimited := space_delimited space' (@delimited_cons (unit ',') (body' ++ unit '\x7d' :: rest) (.inl rfl))
    have shorter : 2 * (y ++ (a ++ (w' ++ unit ',' :: (body' ++ unit '\x7d' :: rest)))).length < fuel := by
      rw [split] at enough
      simp only [List.length_append, List.length_cons] at enough ⊢
      omega
    obtain ⟨taken, refused⟩ := @each (key, doc) List.mem_cons_self fuel (depth + 1) y a _ read space₂ delimited shorter
    by_cases well : isWellFormed key = true
    · by_cases fresh : key ∈ result.map Prod.fst
      · refine ⟨fun goods => ?_, fun _ => members_refused member fun _ => fresh⟩
        exact absurd rfl ((List.nodup_append.mp goods.2).2.2 key fresh key List.mem_cons_self)
      · by_cases good : Good (depth + 1) doc
        · obtain ⟨v, same, item⟩ := taken good
          obtain ⟨fuel, rfl⟩ : ∃ k, fuel = k + 1 := ⟨fuel - 1, by omega⟩
          have shorter' : 2 * (body' ++ unit '\x7d' :: rest).length + 1 < fuel + 1 := by
            simp only [List.length_append, List.length_cons] at shorter ⊢
            omega
          have distinct' : ((result ++ [(key, v)]).map Prod.fst).Nodup := by
            rw [List.map_append]
            exact fresh_nodup distinct fresh
          obtain ⟨later, refused'⟩ := @ih entry' (fun e member => each e (List.mem_cons_of_mem _ member)) (result ++ [(key, v)]) body'
            reads' distinct' fuel shorter'
          rw [members_comma member well fresh space' item, @goodEntries_cons depth result (key, doc) (entry' :: docs) v well good]
          refine ⟨?_, refused'⟩
          intro goods
          obtain ⟨entries, same', value⟩ := later goods
          refine ⟨(key, v) :: entries, ?_, by rw [value, List.append_assoc]; rfl⟩
          unfold RepresentsEntries at same' ⊢
          rw [List.map_cons, List.map_cons, same']
          exact congrArg (fun d => (key, d) :: _) same
        · refine ⟨fun goods => absurd (goods.1 (key, doc) List.mem_cons_self).2 good, fun _ => ?_⟩
          rw [members_value member well fresh, refused good]
    · refine ⟨fun goods => absurd (goods.1 (key, doc) List.mem_cons_self).1 well, fun _ => ?_⟩
      exact members_refused member fun well' => absurd well' well

theorem good_object {depth : ℕ} {docs : List (Text × Document Text)} (level : depth ≤ 128) :
    Good depth (.object docs) ↔ GoodEntries depth [] docs := by
  unfold Good GoodEntries
  rw [Document.everywhere_object]
  constructor
  · intro good
    obtain ⟨⟨_, distinct, well⟩, below⟩ := good
    exact ⟨fun e member => ⟨well e member, below e member⟩, distinct⟩
  · intro goods
    obtain ⟨each, distinct⟩ := goods
    exact ⟨⟨level, distinct, fun e member => (each e member).1⟩, fun e member => (each e member).2⟩

theorem complete_object {docs : List (Text × Document Text)} (each : ∀ e ∈ docs, Complete e.2) : Complete (.object docs) := by
  intro fuel depth w a rest reads space delimited enough
  obtain ⟨fuel, rfl⟩ : ∃ k, fuel = k + 1 := ⟨fuel - 1, by omega⟩
  obtain ⟨body, whole, reads⟩ := reads
  have split : w ++ (a ++ rest) = w ++ unit '\x7b' :: (body ++ unit '\x7d' :: rest) := by simp [whole]
  have read : ws (w ++ (a ++ rest)) = unit '\x7b' :: (body ++ unit '\x7d' :: rest) := by
    rw [split]
    exact ws_cons space (by decide)
  have enough' : 2 * (body ++ unit '\x7d' :: rest).length + 1 < fuel := by
    rw [split] at enough
    simp only [List.length_append, List.length_cons] at enough ⊢
    omega
  have notString : (unit '\x7b' :: (body ++ unit '\x7d' :: rest)).head? ≠ some (unit '"') := fun same => absurd (Option.some.inj same) (by decide)
  by_cases deep : 128 < depth
  · exact ⟨fun good => absurd good.here.1 (by omega), fun _ => value_deep deep⟩
  rw [good_object (by omega)]
  have start : value (fuel + 1) depth (w ++ (a ++ rest)) =
      if (ws (body ++ unit '\x7d' :: rest)).head? = some (unit '\x7d') then .ok (.object [], (ws (body ++ unit '\x7d' :: rest)).tail)
      else members fuel depth [] (ws (body ++ unit '\x7d' :: rest)) := by
    rw [value, if_neg deep, read, if_neg notString, if_pos List.head?_cons, List.tail_cons]
  rw [start]
  cases docs with
  | nil =>
    have space' : Space body := reads
    have closed : ws (body ++ unit '\x7d' :: rest) = unit '\x7d' :: rest := ws_cons space' (by decide)
    rw [closed, if_pos List.head?_cons]
    exact ⟨fun _ => ⟨.object [], rfl, rfl⟩, fun bad => absurd ⟨by simp, List.nodup_nil⟩ bad⟩
  | cons entry docs =>
    obtain ⟨key, doc⟩ := entry
    obtain ⟨w₁, k, x, y, a₁, w₂, more, text, space₁, is_token, parts⟩ := reads
    obtain ⟨inner, token, chars⟩ := is_token
    have trimmed : ws (body ++ unit '\x7d' :: rest) = k ++ (x ++ unit ':' :: (y ++ (a₁ ++ (w₂ ++ more)))) ++ unit '\x7d' :: rest := by
      rw [text, List.append_assoc, token]
      exact ws_cons space₁ (by decide)
    have open_ : (k ++ (x ++ unit ':' :: (y ++ (a₁ ++ (w₂ ++ more)))) ++ unit '\x7d' :: rest).head? ≠ some (unit '\x7d') := by
      rw [token]
      exact fun same => absurd (Option.some.inj same) (by decide)
    have shorter : 2 * ((k ++ (x ++ unit ':' :: (y ++ (a₁ ++ (w₂ ++ more))))) ++ unit '\x7d' :: rest).length + 1 < fuel := by
      rw [text] at enough'
      simp only [List.length_append, List.length_cons] at enough' ⊢
      omega
    have reads' : ReadsEntries ((key, doc) :: docs) (k ++ (x ++ unit ':' :: (y ++ (a₁ ++ (w₂ ++ more))))) :=
      ⟨[], k, x, y, a₁, w₂, more, rfl, fun _ member => absurd member List.not_mem_nil, ⟨inner, token, chars⟩, parts⟩
    obtain ⟨taken, refused⟩ := @complete_entries (key, doc) docs each fuel depth [] _ rest reads' shorter List.nodup_nil
    rw [trimmed, if_neg open_]
    refine ⟨?_, refused⟩
    intro goods
    obtain ⟨entries, same, value⟩ := taken goods
    exact ⟨_, represents_object same, value⟩

theorem complete (doc : Document Text) : Complete doc := by
  induction doc using Document.ind with
  | null => exact complete_null
  | bool b => exact complete_bool b
  | number token => exact complete_number token
  | string s => exact complete_string s
  | array docs ih => exact complete_array ih
  | object docs ih => exact complete_object ih

/-! ### Whole texts -/

theorem space_ws {w : Text} (space : Space w) : ws w = [] := by
  have read := @ws_append w [] space (fun _ head => by cases head)
  rw [List.append_nil] at read
  exact read

/-- What a text is taken for. -/
theorem parseJson_ok {source : Text} {v : JsonValue} (taken : parseJson source = .ok v) :
    ∃ doc, IsText doc source ∧ Good 0 doc ∧ Represents doc v := by
  unfold parseJson at taken
  cases found : value (2 * source.length + 1) 0 source with
  | error failure =>
    rw [found] at taken
    cases taken
  | ok found_ =>
    obtain ⟨v', rest⟩ := found_
    rw [found] at taken
    dsimp only at taken
    by_cases nothing : ws rest = []
    · rw [if_pos nothing] at taken
      cases taken
      obtain ⟨w, doc, a, whole, space, reads, good, same⟩ := (sound _).value found
      obtain ⟨w', behind, space'⟩ := ws_whole rest
      rw [nothing, List.append_nil] at behind
      exact ⟨doc, ⟨w, a, rest, whole, space, reads, by rw [behind]; exact space'⟩, good, same⟩
    · rw [if_neg nothing] at taken
      cases taken

/-- A text of a document is taken for it, if it is within the limits, and refused if it is not. -/
theorem parseJson_text {source : Text} {doc : Document Text} (is_text : IsText doc source) :
    (Good 0 doc → ∃ v, Represents doc v ∧ parseJson source = .ok v) ∧ (¬Good 0 doc → parseJson source = .error .protocol) := by
  obtain ⟨w, a, w', whole, space, reads, space'⟩ := is_text
  have delimited : Delimited w' := by
    have nothing : Delimited [] := by
      intro c head
      cases head
    have behind := space_delimited space' nothing
    rw [List.append_nil] at behind
    exact behind
  have enough : 2 * (w ++ (a ++ w')).length < 2 * source.length + 1 := by
    rw [whole]
    omega
  obtain ⟨taken, refused⟩ := @complete doc _ 0 w a w' reads space delimited enough
  rw [← whole] at taken refused
  unfold parseJson
  constructor
  · intro good
    obtain ⟨v, same, found⟩ := taken good
    refine ⟨v, same, ?_⟩
    rw [found]
    exact if_pos (space_ws space')
  · intro bad
    rw [refused bad]

theorem parseJson_finished (source : Text) : parseJson source ≠ .error .unfinished := by
  unfold parseJson
  intro failed
  cases found : value (2 * source.length + 1) 0 source with
  | error failure =>
    rw [found] at failed
    cases failed
    exact (finished _).value (by omega) found
  | ok found_ =>
    rw [found] at failed
    dsimp only at failed
    split at failed <;> cases failed

end HudsonSandbox.Wire
