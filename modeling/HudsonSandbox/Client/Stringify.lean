import HudsonSandbox.Client.Wire

/-!
# The JSON writer of the TypeScript client

A value without fractions that the parser has taken is written as a text from which it is read again, up to the
order of keys: objects are written in the order in which the platform enumerates their keys.
-/

namespace HudsonSandbox.Wire
open JsonText Checked

section Writer
variable {α β : Type}

/-- The number of a key that is an array index. -/
def index (key : Text) : Option ℕ :=
  if key ≠ [] ∧ key.all isDigit ∧ (key = [unit '0'] ∨ key.head? ≠ some (unit '0')) ∧ decimalValue key < 4294967295 then
    some (decimalValue key)
  else none

/-- Entries as `Object.keys` enumerates their keys: array indices by their number, then the others as they were put in. -/
def ownEntries (entries : List (Text × α)) : List (Text × α) :=
  (entries.filter fun entry => (index entry.1).isSome).mergeSort (fun a b => decide ((index a.1).getD 0 ≤ (index b.1).getD 0)) ++
    entries.filter fun entry => !(index entry.1).isSome

theorem ownEntries_perm (entries : List (Text × α)) : (ownEntries entries).Perm entries :=
  ((List.mergeSort_perm _ _).append_right _).trans (List.filter_append_perm _ entries)

/-- The order depends on the keys alone. -/
theorem ownEntries_map (f : Text × α → β) (entries : List (Text × α)) :
    ownEntries (entries.map fun entry => (entry.1, f entry)) = (ownEntries entries).map fun entry => (entry.1, f entry) := by
  unfold ownEntries
  rw [List.map_append, List.filter_map, List.filter_map, List.map_mergeSort]
  · rfl
  · intro a _ b _
    rfl

def collect : List (Except Failure Text) → Except Failure (List Text)
  | [] => .ok []
  | .error failure :: _ => .error failure
  | .ok part :: rest => (collect rest).map fun parts => part :: parts

/-- `join(',')` -/
def join (parts : List Text) : Text := [unit ','].intercalate parts

/-- `String` of a number; `shortest` stands for it where the number is not an integer below 10^21. -/
def numberText (shortest : Double → Text) (n : Double) : Text :=
  match n with
  | .finite q => if q.isInt ∧ |q| < 10 ^ 21 then integerText q.num else shortest n
  | .infinite => shortest n

def memberText (key : Text) (value : Except Failure Text) : Except Failure Text :=
  if isWellFormed key then value.map fun text => quote key ++ unit ':' :: text else .error .request

mutual
def encode (shortest : Double → Text) : ℕ → JsonValue → Except Failure Text
  | depth, .null => if 128 < depth then .error .request else .ok (text "null")
  | depth, .bool b => if 128 < depth then .error .request else .ok (if b then text "true" else text "false")
  | depth, .number n =>
    if 128 < depth then .error .request
    else
      match n with
      | .float n => .ok (numberText shortest n)
      | .bigint n => .ok (integerText n)
      | .number n =>
        if n = .infinite ∨ n.isInteger ∧ ¬n.isSafeInteger then .error .request else .ok (numberText shortest n)
  | depth, .string s =>
    if 128 < depth then .error .request else if isWellFormed s then .ok (quote s) else .error .request
  | depth, .array items =>
    if 128 < depth then .error .request
    else (collect (encodeItems shortest (depth + 1) items)).map fun parts => unit '[' :: (join parts ++ [unit ']'])
  | depth, .object entries =>
    if 128 < depth then .error .request
    else
      (collect ((ownEntries (encodeEntries shortest (depth + 1) entries)).map Prod.snd)).map fun parts =>
        unit '\x7b' :: (join parts ++ [unit '\x7d'])

def encodeItems (shortest : Double → Text) : ℕ → List JsonValue → List (Except Failure Text)
  | _, [] => []
  | depth, v :: rest => encode shortest depth v :: encodeItems shortest depth rest

def encodeEntries (shortest : Double → Text) : ℕ → List (Text × JsonValue) → List (Text × Except Failure Text)
  | _, [] => []
  | depth, (key, v) :: rest => (key, memberText key (encode shortest depth v)) :: encodeEntries shortest depth rest
end

def stringify (shortest : Double → Text) (value : JsonValue) : Except Failure Text := encode shortest 0 value

theorem encodeItems_eq (shortest : Double → Text) (depth : ℕ) (items : List JsonValue) :
    encodeItems shortest depth items = items.map (encode shortest depth) := by
  induction items with
  | nil => rfl
  | cons v rest ih => rw [encodeItems, ih, List.map_cons]

theorem encodeEntries_eq (shortest : Double → Text) (depth : ℕ) (entries : List (Text × JsonValue)) :
    encodeEntries shortest depth entries =
      entries.map fun entry => (entry.1, memberText entry.1 (encode shortest depth entry.2)) := by
  induction entries with
  | nil => rfl
  | cons entry rest ih =>
    cases entry
    rw [encodeEntries, ih, List.map_cons]

/-! ### What is written is read again -/

/-- Integers as the parser keeps them, well-formed strings, and distinct keys. -/
def Integral : JsonValue → Prop
  | .number n => ∃ token, IntegerToken token ∧ numeric token = some n
  | .string s => isWellFormed s = true
  | .object entries => (entries.map Prod.fst).Nodup ∧ ∀ entry ∈ entries, isWellFormed entry.1 = true
  | _ => True

def Writable (depth : ℕ) (v : JsonValue) : Prop := Document.Everywhere (fun n v => n ≤ 128 ∧ Integral v) depth v

/-- A value is written as the text of a document that stands for the same value. -/
def Written (shortest : Double → Text) (depth : ℕ) (v : JsonValue) (t : Text) (doc : Document Text) (v' : JsonValue) : Prop :=
  encode shortest depth v = .ok t ∧ Reads doc t ∧ Good depth doc ∧ Represents doc v' ∧ v'.Same v

theorem numeric_integer {token : Text} {n : Numeric} (integer : IntegerToken token) (kept : numeric token = some n) :
    digitCount token ≤ 20 ∧
      ((MIN_SAFE_INTEGER ≤ bigInt token ∧ bigInt token ≤ MAX_SAFE_INTEGER ∧ n = .number (.finite (bigInt token))) ∨
        (¬(MIN_SAFE_INTEGER ≤ bigInt token ∧ bigInt token ≤ MAX_SAFE_INTEGER) ∧ n = .bigint (bigInt token))) := by
  have calm := (hasPoint_number (integer_number integer)).mpr integer
  unfold numeric at kept
  rw [if_pos calm, erase_minus integer] at kept
  by_cases long : 20 < digitCount token
  · rw [if_pos long] at kept
    cases kept
  rw [if_neg long] at kept
  refine ⟨by omega, ?_⟩
  by_cases safe : MIN_SAFE_INTEGER ≤ bigInt token ∧ bigInt token ≤ MAX_SAFE_INTEGER
  · rw [if_pos safe] at kept
    cases kept
    have small : |bigInt token| < 2 ^ 53 := by
      rw [abs_lt]
      unfold MIN_SAFE_INTEGER MAX_SAFE_INTEGER at safe
      omega
    exact .inl ⟨safe.1, safe.2, by rw [round_small small]⟩
  · rw [if_neg safe] at kept
    cases kept
    exact .inr ⟨safe, rfl⟩

/-- The text of an integer is kept as the integer was. -/
theorem numeric_again {token : Text} {n : Numeric} (integer : IntegerToken token) (kept : numeric token = some n) :
    numeric (integerText (bigInt token)) = some n := by
  obtain ⟨short, _⟩ := numeric_integer integer kept
  have integer' := integerText_integer (bigInt token)
  have calm := (hasPoint_number (integer_number integer)).mpr integer
  have calm' := (hasPoint_number (integer_number integer')).mpr integer'
  have short' := digitCount_integerText (bigInt_lt integer short)
  unfold numeric at kept ⊢
  rw [if_pos calm, erase_minus integer, if_neg (by omega)] at kept
  rw [if_pos calm', erase_minus integer', if_neg (by omega), bigInt_integerText]
  exact kept

theorem written_number {shortest : Double → Text} {depth : ℕ} {token : Text} {n : Numeric} (level : depth ≤ 128)
    (integer : IntegerToken token) (kept : numeric token = some n) :
    Written shortest depth (.number n) (integerText (bigInt token)) (.number (integerText (bigInt token))) (.number n) := by
  have again := numeric_again integer kept
  have grammar := integer_number (integerText_integer (bigInt token))
  obtain ⟨_, shape⟩ := numeric_integer integer kept
  refine ⟨?_, ⟨rfl, grammar⟩, (@good_leaf depth (.number _) trivial).mpr ⟨level, (numeric_some grammar).mp ⟨n, again⟩⟩, ?_, rfl⟩
  · cases shape with
    | inl number =>
      obtain ⟨low, high, same⟩ := number
      rw [same, encode, if_neg (by omega)]
      have small : |((bigInt token : ℤ) : ℚ)| ≤ MAX_SAFE_INTEGER := by
        rw [← Int.cast_abs]
        exact_mod_cast abs_le.mpr ⟨low, high⟩
      have safe : ¬(Double.finite (bigInt token) = .infinite ∨
          (Double.finite (bigInt token)).isInteger ∧ ¬(Double.finite (bigInt token)).isSafeInteger) := by
        simp [Double.isInteger, Double.isSafeInteger, small]
      have short : ((bigInt token : ℤ) : ℚ).isInt = true ∧ |((bigInt token : ℤ) : ℚ)| < 10 ^ 21 := by
        refine ⟨rfl, lt_of_le_of_lt small ?_⟩
        unfold MAX_SAFE_INTEGER
        norm_num
      rw [if_neg safe]
      exact congrArg Except.ok (if_pos short)
    | inr bigint => rw [bigint.2, encode, if_neg (by omega)]
  · show Document.number (some n) = .number (numeric (integerText (bigInt token)))
    rw [again]

theorem join_cons {part : Text} {parts : List Text} (some_ : parts ≠ []) : join (part :: parts) = part ++ unit ',' :: join parts := by
  unfold join
  cases parts with
  | nil => exact absurd rfl some_
  | cons part' parts =>
    rw [List.intercalate_cons_cons]
    simp

theorem nil_space : Space [] := fun _ member => absurd member List.not_mem_nil

/-- Items that are written one by one are written together. -/
theorem written_items {shortest : Double → Text} {depth : ℕ} {items : List JsonValue}
    (each : ∀ v ∈ items, ∃ t doc v', Written shortest depth v t doc v') :
    ∃ parts docs items', collect (items.map (encode shortest depth)) = .ok parts ∧ ReadsItems docs (join parts) ∧
      (∀ d ∈ docs, Good depth d) ∧ RepresentsItems docs items' ∧ Document.SameItems items' items ∧ (parts = [] ↔ docs = []) := by
  induction items with
  | nil => exact ⟨[], [], [], rfl, nil_space, by simp, rfl, trivial, by simp⟩
  | cons v rest ih =>
    obtain ⟨t, doc, v', encoded, reads, good, represents, same⟩ := each v List.mem_cons_self
    obtain ⟨parts, docs, items', collected, reads', goods, represents', same', empty⟩ :=
      ih fun v member => each v (List.mem_cons_of_mem _ member)
    refine ⟨t :: parts, doc :: docs, v' :: items', ?_, ?_, List.forall_mem_cons.mpr ⟨good, goods⟩, ?_, ⟨same, same'⟩, by simp⟩
    · rw [List.map_cons, encoded, collect, collected]
      rfl
    · cases docs with
      | nil =>
        have none_ := empty.mpr rfl
        refine ⟨[], t, [], [], ?_, nil_space, reads, nil_space, rfl⟩
        rw [none_]
        simp [join]
      | cons doc' docs =>
        have some_ : parts ≠ [] := fun none_ => absurd (empty.mp none_) (List.cons_ne_nil _ _)
        exact ⟨[], t, [], _, join_cons some_, nil_space, reads, nil_space, readsMoreItems_cons reads'⟩
    · unfold RepresentsItems at represents' ⊢
      rw [List.map_cons, List.map_cons, represents', represents]

theorem written_entries {shortest : Double → Text} {depth : ℕ} {entries : List (Text × JsonValue)}
    (each : ∀ e ∈ entries, isWellFormed e.1 = true ∧ ∃ t doc v', Written shortest depth e.2 t doc v') :
    ∃ parts docs entries', collect (entries.map fun e => memberText e.1 (encode shortest depth e.2)) = .ok parts ∧
      ReadsEntries docs (join parts) ∧ docs.map Prod.fst = entries.map Prod.fst ∧ (∀ d ∈ docs, Good depth d.2) ∧
      RepresentsEntries docs entries' ∧ Document.SameEntries entries' entries ∧ (parts = [] ↔ docs = []) := by
  induction entries with
  | nil => exact ⟨[], [], [], rfl, nil_space, rfl, by simp, rfl, trivial, by simp⟩
  | cons entry rest ih =>
    obtain ⟨key, v⟩ := entry
    obtain ⟨well, t, doc, v', encoded, reads, good, represents, same⟩ := each (key, v) List.mem_cons_self
    obtain ⟨parts, docs, entries', collected, reads', keys, goods, represents', same', empty⟩ :=
      ih fun e member => each e (List.mem_cons_of_mem _ member)
    have member : memberText key (encode shortest depth v) = .ok (quote key ++ unit ':' :: t) := by
      unfold memberText
      rw [if_pos well, encoded]
      rfl
    have token := quote_token key
    refine ⟨(quote key ++ unit ':' :: t) :: parts, (key, doc) :: docs, (key, v') :: entries', ?_, ?_, ?_,
      List.forall_mem_cons.mpr ⟨good, goods⟩, ?_, ⟨rfl, same, same'⟩, by simp⟩
    · rw [List.map_cons, member, collect, collected]
      rfl
    · cases docs with
      | nil =>
        have none_ := empty.mpr rfl
        refine ⟨[], quote key, [], [], t, [], [], ?_, nil_space, token, nil_space, nil_space, reads, nil_space, rfl⟩
        rw [none_]
        simp [join]
      | cons doc' docs =>
        have some_ : parts ≠ [] := fun none_ => absurd (empty.mp none_) (List.cons_ne_nil _ _)
        refine ⟨[], quote key, [], [], t, [], unit ',' :: join parts, ?_, nil_space, token, nil_space, nil_space, reads, nil_space,
          readsMoreEntries_cons reads'⟩
        rw [join_cons some_]
        simp
    · rw [List.map_cons, List.map_cons, keys]
    · unfold RepresentsEntries at represents' ⊢
      rw [List.map_cons, List.map_cons, represents']
      exact congrArg (fun d => (key, d) :: _) represents

theorem written (shortest : Double → Text) (v : JsonValue) : ∀ depth, Writable depth v → ∃ t doc v', Written shortest depth v t doc v' := by
  induction v using Document.ind with
  | null =>
    intro depth writable
    have level := writable.here.1
    exact ⟨text "null", .null, .null, if_neg (by omega), rfl, (@good_leaf depth .null trivial).mpr ⟨level, trivial⟩, rfl, trivial⟩
  | bool b =>
    intro depth writable
    have level := writable.here.1
    refine ⟨if b then text "true" else text "false", .bool b, .bool b, if_neg (by omega), ?_,
      (@good_leaf depth (.bool b) trivial).mpr ⟨level, trivial⟩, rfl, rfl⟩
    cases b <;> rfl
  | number n =>
    intro depth writable
    obtain ⟨level, token, integer, kept⟩ := writable.here
    exact ⟨_, _, _, written_number level integer kept⟩
  | string s =>
    intro depth writable
    obtain ⟨level, well⟩ := writable.here
    have well : isWellFormed s = true := well
    refine ⟨quote s, .string s, .string s, ?_, quote_token s, (@good_leaf depth (.string s) trivial).mpr ⟨level, well⟩, rfl, rfl⟩
    rw [encode, if_neg (by omega), if_pos well]
  | array items ih =>
    intro depth writable
    obtain ⟨⟨level, _⟩, below⟩ := Document.everywhere_array.mp writable
    obtain ⟨parts, docs, items', collected, reads, goods, represents, same, _⟩ :=
      @written_items shortest (depth + 1) items fun v member => ih v member (depth + 1) (below v member)
    refine ⟨unit '[' :: (join parts ++ [unit ']']), .array docs, .array items', ?_, ⟨_, rfl, reads⟩,
      Document.everywhere_array.mpr ⟨⟨level, trivial⟩, goods⟩, represents_array represents, same⟩
    rw [encode, if_neg (by omega), encodeItems_eq, collected]
    rfl
  | object entries ih =>
    intro depth writable
    obtain ⟨⟨level, distinct, well⟩, below⟩ := Document.everywhere_object.mp writable
    have order := ownEntries_perm entries
    obtain ⟨parts, docs, entries', collected, reads, keys, goods, represents, same, _⟩ :=
      @written_entries shortest (depth + 1) (ownEntries entries) fun e member => by
        have here := order.mem_iff.mp member
        exact ⟨well e here, ih e here (depth + 1) (below e here)⟩
    have distinct' : (docs.map Prod.fst).Nodup := by
      rw [keys]
      exact (order.map Prod.fst).nodup_iff.mpr distinct
    have well' : ∀ e ∈ docs, isWellFormed e.1 = true := by
      intro e member
      have key : e.1 ∈ (ownEntries entries).map Prod.fst := by
        rw [← keys]
        exact List.mem_map_of_mem member
      obtain ⟨entry, here, same⟩ := List.mem_map.mp key
      rw [← same]
      exact well entry (order.mem_iff.mp here)
    refine ⟨unit '\x7b' :: (join parts ++ [unit '\x7d']), .object docs, .object entries', ?_, ⟨_, rfl, reads⟩,
      Document.everywhere_object.mpr ⟨⟨level, distinct', well'⟩, goods⟩, represents_object represents, ownEntries entries, order, same⟩
    rw [encode, if_neg (by omega), encodeEntries_eq,
      ownEntries_map (fun e : Text × JsonValue => memberText e.1 (encode shortest (depth + 1) e.2)), List.map_map]
    change (collect ((ownEntries entries).map fun e => memberText e.1 (encode shortest (depth + 1) e.2))).map _ = _
    rw [collected]
    rfl

/-! ### Parsing and writing -/

/-- No number of a value came from a token with a fraction or an exponent. -/
def Fractionless (v : JsonValue) : Prop := ∀ n m, Document.Lies n (.number m) v → ∀ x, m ≠ .float x

theorem readsItems_mem {docs : List (Document Text)} {t : Text} (reads : ReadsItems docs t) : ∀ d ∈ docs, ∃ a, Reads d a := by
  induction docs generalizing t with
  | nil =>
    intro d member
    cases member
  | cons doc docs ih =>
    obtain ⟨w, a, w', more, _, _, read, _, behind⟩ := reads
    refine List.forall_mem_cons.mpr ⟨⟨a, read⟩, ?_⟩
    cases docs with
    | nil =>
      intro d member
      cases member
    | cons doc' docs =>
      obtain ⟨t', _, reads'⟩ := readsMoreItems_comma behind
      exact ih reads'

theorem readsEntries_mem {docs : List (Text × Document Text)} {t : Text} (reads : ReadsEntries docs t) :
    ∀ e ∈ docs, ∃ a, Reads e.2 a := by
  induction docs generalizing t with
  | nil =>
    intro d member
    cases member
  | cons entry docs ih =>
    obtain ⟨w, k, x, y, a, w', more, _, _, _, _, _, read, _, behind⟩ := reads
    refine List.forall_mem_cons.mpr ⟨⟨a, read⟩, ?_⟩
    cases docs with
    | nil =>
      intro d member
      cases member
    | cons entry' docs =>
      obtain ⟨t', _, reads'⟩ := readsMoreEntries_comma behind
      exact ih reads'

/-- Whatever lies in a document has a text of its own. -/
theorem reads_lies {doc w : Document Text} {n : ℕ} {a : Text} (lies : Document.Lies n w doc) (reads : Reads doc a) :
    ∃ a', Reads w a' := by
  induction lies generalizing a with
  | root => exact ⟨a, reads⟩
  | item member _ ih =>
    obtain ⟨body, _, items⟩ := reads
    obtain ⟨a', read⟩ := readsItems_mem items _ member
    exact ih read
  | entry member _ ih =>
    obtain ⟨body, _, entries⟩ := reads
    obtain ⟨a', read⟩ := readsEntries_mem entries _ member
    exact ih read

/-- A fraction is kept as a `JsonFloat`. -/
theorem numeric_fraction {token : Text} {n : Numeric} (grammar : NumberToken token) (kept : numeric token = some n)
    (whole : ∀ x, n ≠ .float x) : IntegerToken token := by
  by_cases calm : hasPoint token = false
  · exact (hasPoint_number grammar).mp calm
  · unfold numeric at kept
    rw [if_neg calm] at kept
    split at kept
    · cases kept
    · exact absurd (Option.some.inj kept).symm (whole _)

/-- What the parser takes can be written, if it has no fractions. -/
theorem represents_writable {doc : Document Text} {v : JsonValue} {a : Text} (reads : Reads doc a) (good : Good 0 doc)
    (same : Represents doc v) (whole : Fractionless v) : Writable 0 v := by
  intro n w lies
  have mapped := lies.map (some : Numeric → Option Numeric)
  rw [same] at mapped
  obtain ⟨u, within, alike⟩ := Document.lies_map mapped
  obtain ⟨level, kept⟩ := good n u within
  refine ⟨level, ?_⟩
  cases w with
  | null => trivial
  | bool b => trivial
  | array items => trivial
  | number m =>
    cases u with
    | number token =>
      have found : numeric token = some m := (Document.number.inj alike).symm
      obtain ⟨a', _, grammar⟩ := reads_lies within reads
      exact ⟨token, numeric_fraction grammar found (whole n m lies), found⟩
    | _ => simp [Document.map] at alike
  | string s =>
    cases u with
    | string s' =>
      cases alike
      exact kept
    | _ => simp [Document.map] at alike
  | object entries =>
    cases u with
    | object docs =>
      rw [Document.map_object, Document.map_object] at alike
      have keys := representsEntries_keys (Document.object.inj alike)
      obtain ⟨distinct, well⟩ := kept
      refine ⟨by rw [keys]; exact distinct, ?_⟩
      intro entry member
      have key : entry.1 ∈ docs.map Prod.fst := by
        rw [← keys]
        exact List.mem_map_of_mem member
      obtain ⟨e, here, same⟩ := List.mem_map.mp key
      rw [← same]
      exact well e here
    | _ => simp [Document.map] at alike

/-- What is written is read as the same value. -/
theorem parse_stringify {source : Text} {v : JsonValue} (taken : parseJson source = .ok v) (whole : Fractionless v)
    (shortest : Double → Text) : ∃ t v', stringify shortest v = .ok t ∧ parseJson t = .ok v' ∧ v'.Same v := by
  obtain ⟨doc, ⟨_, a, _, _, _, reads, _⟩, good, same⟩ := parseJson_ok taken
  obtain ⟨t, doc', v', encoded, reads', good', same', equal⟩ := written shortest v 0 (represents_writable reads good same whole)
  have is_text : IsText doc' t := ⟨[], t, [], (List.append_nil t).symm, nil_space, reads', nil_space⟩
  obtain ⟨v'', again, parsed⟩ := (parseJson_text is_text).1 good'
  have one : v' = v'' := Document.map_injective (fun _ _ same => Option.some.inj same) v' v'' (same'.trans again.symm)
  exact ⟨t, v', encoded, by rw [one]; exact parsed, equal⟩

/-- For every text: the parser comes to an end; it takes the text exactly if it is the text of a document within the
limits, whichever document that is; then its value stands for the document, with every integer as it is; and what is
written of a value without fractions is read as the same value, up to the order of keys. -/
theorem parses_json (source : Text) :
    parseJson source ≠ .error .unfinished ∧
    ((∃ v, parseJson source = .ok v) ↔ ∃ doc, IsText doc source ∧ Good 0 doc) ∧
    (∀ doc, IsText doc source → ((∃ v, parseJson source = .ok v) ↔ Good 0 doc)) ∧
    ∀ v, parseJson source = .ok v →
      (∀ doc, IsText doc source → Represents doc v ∧ ∀ n token, Document.Lies n (.number token) doc → IntegerToken token →
        ∃ m, numeric token = some m ∧ m.value = .finite (bigInt token)) ∧
      (Fractionless v → ∀ shortest, ∃ t v', stringify shortest v = .ok t ∧ parseJson t = .ok v' ∧ v'.Same v) := by
  have exactly : ∀ doc, IsText doc source → ((∃ v, parseJson source = .ok v) ↔ Good 0 doc) := by
    intro doc is_text
    obtain ⟨taken, refused⟩ := parseJson_text is_text
    constructor
    · intro parsed
      obtain ⟨v, parsed⟩ := parsed
      by_contra bad
      rw [refused bad] at parsed
      cases parsed
    · intro good
      obtain ⟨v, _, parsed⟩ := taken good
      exact ⟨v, parsed⟩
  refine ⟨parseJson_finished source, ?_, exactly, ?_⟩
  · constructor
    · intro parsed
      obtain ⟨v, parsed⟩ := parsed
      obtain ⟨doc, is_text, good, _⟩ := parseJson_ok parsed
      exact ⟨doc, is_text, good⟩
    · intro described
      obtain ⟨doc, is_text, good⟩ := described
      exact (exactly doc is_text).mpr good
  · intro v parsed
    refine ⟨?_, fun whole shortest => parse_stringify parsed whole shortest⟩
    intro doc is_text
    have good := (exactly doc is_text).mp ⟨v, parsed⟩
    obtain ⟨v', same, parsed'⟩ := (parseJson_text is_text).1 good
    have one : v' = v := Except.ok.inj (parsed'.symm.trans parsed)
    rw [one] at same
    refine ⟨same, ?_⟩
    intro n token lies integer
    have kept : Fine token := (good n _ lies).2
    obtain ⟨m, found⟩ := (numeric_some (integer_number integer)).mpr kept
    exact ⟨m, found, numeric_exact integer found⟩

end Writer

end HudsonSandbox.Wire
