import Mathlib.Data.List.TakeWhile
import SimpleFiles.Json.Reader

/-! What is written as JSON is read back: texts with all their characters, numbers with all their
digits, and whatever is built of them. -/
namespace SimpleFiles.Json

theorem hexValue?_hexDigit : ∀ n < 16, hexValue? (hexDigit n) = some n := by decide

theorem escaped_cases (c : Char) :
    (∃ e, escaped c = ['\\', e] ∧ unescaped? e = some c) ∨
      (c.toNat < 32 ∧ escaped c =
        ['\\', 'u', '0', '0', hexDigit (c.toNat / 16), hexDigit (c.toNat % 16)]) ∨
      (c ≠ '"' ∧ c ≠ '\\' ∧ ¬ c.toNat < 32 ∧ escaped c = [c]) := by
  unfold escaped
  iterate 7
    split
    · rename_i same
      exact .inl ⟨_, rfl, congrArg some same.symm⟩
  rename_i noQuote noBackslash _ _ _ _ _
  split
  · rename_i control
    exact .inr (.inl ⟨control, rfl⟩)
  · rename_i noControl
    exact .inr (.inr ⟨noQuote, noBackslash, noControl, rfl⟩)

theorem hexUnit?_control (n : Nat) (h : n < 32) :
    hexUnit? '0' '0' (hexDigit (n / 16)) (hexDigit (n % 16)) = some n := by
  have zero : hexValue? '0' = some 0 := rfl
  have high := hexValue?_hexDigit (n / 16) (by omega)
  have low := hexValue?_hexDigit (n % 16) (by omega)
  have value : 4096 * 0 + 256 * 0 + 16 * (n / 16) + n % 16 = n := by omega
  simp only [hexUnit?, zero, high, low, bind, Option.bind, value, pure]

theorem readText_escaped (c : Char) (rest : List Char) :
    readText (escaped c ++ rest) = (readText rest).map fun (cs, left) => (c :: cs, left) := by
  rcases escaped_cases c with ⟨e, written, read⟩ | ⟨control, written⟩ |
    ⟨noQuote, noBackslash, noControl, written⟩
  · have notUnit : e ≠ 'u' := by
      rintro rfl
      cases read
    rw [written, List.cons_append, List.singleton_append, readText.eq_def]
    simp only [if_neg notUnit, read]
    rfl
  · have noSurrogate : ¬ (0xD800 ≤ c.toNat ∧ c.toNat < 0xDC00) ∧
        ¬ (0xDC00 ≤ c.toNat ∧ c.toNat < 0xE000) := by
      omega
    rw [written, readText.eq_def]
    simp only [List.cons_append, List.nil_append, hexUnit?_control c.toNat control,
      if_neg noSurrogate.1, if_neg noSurrogate.2, Char.ofNat_toNat]
    rfl
  · rw [written, List.singleton_append, readText.eq_def]
    simp only [if_neg noQuote, if_neg noBackslash, if_neg noControl]

theorem readText_quoted (s : String) (rest : List Char) :
    readText (s.toList.flatMap escaped ++ '"' :: rest) = some (s.toList, rest) := by
  induction s.toList with
  | nil => exact readText.eq_def _
  | cons c cs ih => rw [List.flatMap_cons, List.append_assoc, readText_escaped, ih, Option.map_some]

/-! Numbers. -/

/-- A literal that is read as a number, and to its end. -/
structure IsLiteral (digits : List Char) : Prop where
  number : isNumber digits = true
  inside : ∀ c ∈ digits, isNumberChar c = true

/-- What comes next does not belong to a number. -/
def Stops (rest : List Char) : Prop := ∀ c ∈ rest.head?, isNumberChar c = false

theorem isNumber_of_digits (digits : List Char) (allDigits : ∀ c ∈ digits, c.isDigit = true)
    (filled : digits ≠ []) (leading : digits.head? ≠ some '0' ∨ digits.length = 1) :
    isNumber digits = true := by
  have taken : digits.takeWhile Char.isDigit = digits := List.takeWhile_eq_self_iff.mpr allDigits
  have dropped : digits.dropWhile Char.isDigit = [] := List.dropWhile_eq_nil_iff.mpr allDigits
  unfold isNumber
  split
  · exact absurd (allDigits '-' (List.mem_cons_self ..)) (by decide)
  · simpa [taken, dropped, filled] using leading

theorem head?_toDigits (n : Nat) (h : 0 < n) : (Nat.toDigits 10 n).head? ≠ some '0' := by
  induction n using Nat.strongRecOn with
  | _ n ih =>
    rw [Nat.toDigits_eq_if (by decide)]
    split
    · simp
      omega
    · have smaller := ih (n / 10) (by omega) (by omega)
      rwa [List.head?_append, Option.or_of_isSome]
      simp

theorem toList_toString (n : Nat) : (toString n).toList = Nat.toDigits 10 n := by
  rw [Nat.toString_eq_ofList_toDigits, String.toList_ofList]

theorem isDigit_of_mem_toDigits (n : Nat) : ∀ c ∈ Nat.toDigits 10 n, c.isDigit = true :=
  fun _ inside => Nat.isDigit_of_mem_toDigits (by decide) (by decide) inside

theorem isLiteral_toString (n : Nat) : IsLiteral (toString n).toList := by
  rw [toList_toString]
  refine ⟨isNumber_of_digits _ (isDigit_of_mem_toDigits n) Nat.toDigits_ne_nil ?_, ?_⟩
  · rcases Nat.eq_zero_or_pos n with rfl | positive
    · exact .inr rfl
    · exact .inl (head?_toDigits n positive)
  · intro c inside
    simp [isNumberChar, isDigit_of_mem_toDigits n c inside]

theorem nat?_nat (n : Nat) : (nat n).nat? = some n := by
  have digits : Nat.toDigits 10 n ≠ [] ∧ (Nat.toDigits 10 n).all Char.isDigit = true :=
    ⟨Nat.toDigits_ne_nil, List.all_eq_true.mpr (isDigit_of_mem_toDigits n)⟩
  rw [nat, nat?, toList_toString, if_pos digits]
  exact congrArg some Nat.ofDigitChars_ten_toDigits

/-! Values. -/

/-- A value whose numbers are all written as numbers. -/
inductive Legal : Json → Prop
  | null : Legal .null
  | bool (value : Bool) : Legal (.bool value)
  | number (literal : String) (h : IsLiteral literal.toList) : Legal (.number literal)
  | text (value : String) : Legal (.text value)
  | array (items : List Json) (h : ∀ item ∈ items, Legal item) : Legal (.array items)
  | object (fields : List (String × Json)) (h : ∀ field ∈ fields, Legal field.2) :
    Legal (.object fields)

theorem skipBlank_cons (c : Char) (rest : List Char)
    (h : (c = ' ' || c = '\t' || c = '\n' || c = '\r') = false) :
    skipBlank (c :: rest) = c :: rest :=
  List.dropWhile_cons_of_neg (by simp [h])

theorem dropWord?_of_ne (first c : Char) (word rest : List Char) (h : first ≠ c) :
    dropWord? (first :: word) (c :: rest) = none := by
  simp [dropWord?, List.isPrefixOf, h]

theorem readLeaf_null (rest : List Char) : readLeaf ("null".toList ++ rest) = some (.null, rest) :=
  rfl

theorem readLeaf_true (rest : List Char) :
    readLeaf ("true".toList ++ rest) = some (.bool true, rest) :=
  rfl

theorem readLeaf_false (rest : List Char) :
    readLeaf ("false".toList ++ rest) = some (.bool false, rest) :=
  rfl

theorem readLeaf_number (digits rest : List Char) (literal : IsLiteral digits)
    (stops : Stops rest) : readLeaf (digits ++ rest) = some (.number (.ofList digits), rest) := by
  have taken : (digits ++ rest).takeWhile isNumberChar = digits := by
    rw [List.takeWhile_append_of_pos literal.inside]
    cases rest with
    | nil => simp
    | cons c rest => simp [stops c (by simp)]
  have dropped : (digits ++ rest).dropWhile isNumberChar = rest := by
    rw [List.dropWhile_append_of_pos literal.inside]
    cases rest with
    | nil => simp
    | cons c rest => simp [stops c (by simp)]
  have filled : digits ≠ [] := by
    rintro rfl
    cases literal.number
  obtain ⟨c, others, rfl⟩ := List.exists_cons_of_ne_nil filled
  have noWord : ∀ (w : Char) (word : List Char), isNumberChar w = false →
      dropWord? (w :: word) (c :: others ++ rest) = none := by
    intro w word other
    apply dropWord?_of_ne
    rintro rfl
    rw [literal.inside w (List.mem_cons_self ..)] at other
    cases other
  have null : dropWord? "null".toList (c :: others ++ rest) = none := noWord 'n' _ (by decide)
  have yes : dropWord? "true".toList (c :: others ++ rest) = none := noWord 't' _ (by decide)
  have no : dropWord? "false".toList (c :: others ++ rest) = none := noWord 'f' _ (by decide)
  rw [readLeaf, null, yes, no, taken, dropped]
  simp [literal.number]

/-- A character that no blank is skipped before, and that ends no list. -/
def isFirst (c : Char) : Bool :=
  !(c = ' ' || c = '\t' || c = '\n' || c = '\r') && c ≠ ']' && c ≠ '\x7d'

theorem skipBlank_first (c : Char) (rest : List Char) (h : isFirst c = true) :
    skipBlank (c :: rest) = c :: rest := by
  refine skipBlank_cons c rest ?_
  simp only [isFirst, Bool.and_eq_true, Bool.not_eq_true'] at h
  exact h.1.1

theorem readValue_leaf (depth : Nat) (c : Char) (rest : List Char) (first : isFirst c = true)
    (leaf : c ≠ '"' ∧ c ≠ '[' ∧ c ≠ '\x7b') :
    readValue (depth + 1) (c :: rest) = readLeaf (c :: rest) := by
  rw [readValue, skipBlank_first c rest first]
  split
  · rename_i same
    exact absurd (List.cons.inj same).1 leaf.1
  · rename_i same
    exact absurd (List.cons.inj same).1 leaf.2.1
  · rename_i same
    exact absurd (List.cons.inj same).1 leaf.2.2
  · rfl

theorem readValue_text (depth : Nat) (s : String) (rest : List Char) :
    readValue (depth + 1) (quoted s ++ rest) = some (.text s, rest) := by
  rw [quoted, List.cons_append, List.cons_append, readValue, skipBlank_first _ _ (by decide)]
  simp [readText_quoted]

theorem readValue_array (depth : Nat) (c : Char) (rest : List Char) (first : isFirst c = true) :
    readValue (depth + 1) ('[' :: c :: rest) = do
      let (item, rest) ← readValue depth (c :: rest)
      let (items, left) ← readItems depth rest
      return (.array (item :: items), left) := by
  rw [readValue, skipBlank_first '[' _ (by decide)]
  simp only [skipBlank_first c rest first]
  split
  · rename_i same
    rw [(List.cons.inj same).1] at first
    cases first
  · rfl

theorem readValue_object (depth : Nat) (c : Char) (rest : List Char) (first : isFirst c = true) :
    readValue (depth + 1) ('\x7b' :: c :: rest) = do
      let (field, rest) ← readField depth (c :: rest)
      let (fields, left) ← readFields depth rest
      return (.object (field :: fields), left) := by
  rw [readValue, skipBlank_first '\x7b' _ (by decide)]
  simp only [skipBlank_first c rest first]
  split
  · rename_i same
    rw [(List.cons.inj same).1] at first
    cases first
  · rfl

theorem readField_quoted (depth : Nat) (key : String) (rest : List Char) :
    readField (depth + 1) (quoted key ++ ':' :: rest) =
      (readValue depth rest).map fun (value, left) => ((key, value), left) := by
  rw [quoted, List.cons_append, List.cons_append, readField, skipBlank_first _ _ (by decide)]
  simp only [List.append_assoc, List.singleton_append, readText_quoted, bind, Option.bind,
    skipBlank_first ':' _ (by decide), String.ofList_toList]
  cases readValue depth rest <;> rfl

theorem readItems_cons (depth : Nat) (rest : List Char) :
    readItems (depth + 1) (',' :: rest) = do
      let (item, rest) ← readValue depth rest
      let (items, left) ← readItems depth rest
      return (item :: items, left) := by
  rw [readItems, skipBlank_first ',' _ (by decide)]
  rfl

theorem readFields_cons (depth : Nat) (rest : List Char) :
    readFields (depth + 1) (',' :: rest) = do
      let (field, rest) ← readField depth rest
      let (fields, left) ← readFields depth rest
      return (field :: fields, left) := by
  rw [readFields, skipBlank_first ',' _ (by decide)]
  rfl

theorem first_of_isNumberChar (c : Char) (h : isNumberChar c = true) :
    isFirst c = true ∧ c ≠ '"' ∧ c ≠ '[' ∧ c ≠ '\x7b' := by
  have away : ∀ x, isNumberChar x = false → c ≠ x := by
    rintro x other rfl
    rw [h] at other
    cases other
  simp [isFirst, away ' ' (by decide), away '\t' (by decide), away '\n' (by decide),
    away '\r' (by decide), away ']' (by decide), away '\x7d' (by decide), away '"' (by decide),
    away '[' (by decide), away '\x7b' (by decide)]

theorem IsLiteral.exists_first {digits : List Char} (literal : IsLiteral digits) :
    ∃ c rest, digits = c :: rest ∧ isNumberChar c = true := by
  cases digits with
  | nil => cases literal.number
  | cons c rest => exact ⟨c, rest, rfl, literal.inside c (List.mem_cons_self ..)⟩

theorem exists_first (v : Json) (legal : v.Legal) :
    ∃ c cs, v.chars = c :: cs ∧ isFirst c = true := by
  cases legal with
  | null => exact ⟨'n', _, rfl, by decide⟩
  | bool b => cases b <;> exact ⟨_, _, rfl, by decide⟩
  | text s => exact ⟨'"', _, rfl, by decide⟩
  | number l literal =>
    obtain ⟨c, cs, written, first⟩ := literal.exists_first
    exact ⟨c, cs, written, (first_of_isNumberChar c first).1⟩
  | array items => cases items <;> exact ⟨'[', _, rfl, by decide⟩
  | object fields => cases fields <;> exact ⟨'\x7b', _, rfl, by decide⟩

theorem stops_cons (c : Char) (rest : List Char) (h : isNumberChar c = false) :
    Stops (c :: rest) := by
  simpa [Stops] using h

theorem stops_tailChars (items : List Json) (rest : List Char) :
    Stops (tailChars items ++ ']' :: rest) := by
  cases items with
  | nil => exact stops_cons ']' _ (by decide)
  | cons item others => exact stops_cons ',' _ (by decide)

theorem stops_tailFields (fields : List (String × Json)) (rest : List Char) :
    Stops (tailFields fields ++ '\x7d' :: rest) := by
  cases fields with
  | nil => exact stops_cons '\x7d' _ (by decide)
  | cons field others => exact stops_cons ',' _ (by decide)

section
variable (depth : Nat) (rest : List Char)

theorem readValue_array_cons (item : Json) (items : List Json) (legal : item.Legal)
    (head : readValue depth (item.chars ++ (tailChars items ++ ']' :: rest)) =
      some (item, tailChars items ++ ']' :: rest))
    (tail : readItems depth (tailChars items ++ ']' :: rest) = some (items, rest)) :
    readValue (depth + 1) ((Json.array (item :: items)).chars ++ rest) =
      some (.array (item :: items), rest) := by
  obtain ⟨c, cs, written, first⟩ := item.exists_first legal
  rw [chars]
  rw [written] at head ⊢
  simp only [List.cons_append, List.append_assoc, List.nil_append] at head ⊢
  rw [readValue_array depth c _ first, head]
  simp [tail]

theorem readField_chars (key : String) (value : Json) (more : List Char)
    (h : readValue depth (value.chars ++ more) = some (value, more)) :
    readField (depth + 1) (quoted key ++ ':' :: value.chars ++ more) =
      some ((key, value), more) := by
  rw [List.append_assoc, List.cons_append, readField_quoted, h]
  rfl

theorem readValue_object_cons (key : String) (value : Json) (fields : List (String × Json))
    (head : readField depth
        (quoted key ++ ':' :: value.chars ++ (tailFields fields ++ '\x7d' :: rest)) =
      some ((key, value), tailFields fields ++ '\x7d' :: rest))
    (tail : readFields depth (tailFields fields ++ '\x7d' :: rest) = some (fields, rest)) :
    readValue (depth + 1) ((Json.object ((key, value) :: fields)).chars ++ rest) =
      some (.object ((key, value) :: fields), rest) := by
  rw [chars]
  rw [quoted] at head ⊢
  simp only [List.cons_append, List.append_assoc, List.nil_append] at head ⊢
  rw [readValue_object depth '"' _ (by decide), head]
  simp [tail]

end

mutual

theorem readValue_chars : ∀ (v : Json) (depth : Nat) (rest : List Char), v.Legal →
    2 * v.chars.length ≤ depth → Stops rest → readValue depth (v.chars ++ rest) = some (v, rest)
  | v, 0, rest, legal, deep, _ => by
    obtain ⟨c, cs, written, -⟩ := v.exists_first legal
    rw [written, List.length_cons] at deep
    omega
  | .null, depth + 1, rest, _, _, _ =>
    (readValue_leaf depth _ _ (by decide) (by decide)).trans (readLeaf_null rest)
  | .bool true, depth + 1, rest, _, _, _ =>
    (readValue_leaf depth _ _ (by decide) (by decide)).trans (readLeaf_true rest)
  | .bool false, depth + 1, rest, _, _, _ =>
    (readValue_leaf depth _ _ (by decide) (by decide)).trans (readLeaf_false rest)
  | .number l, depth + 1, rest, .number _ literal, _, stops => by
    have leaf := readLeaf_number l.toList rest literal stops
    obtain ⟨c, cs, written, first⟩ := literal.exists_first
    obtain ⟨isFirst, noOther⟩ := first_of_isNumberChar c first
    have same : (Json.number l).chars = c :: cs := written
    rw [String.ofList_toList, written] at leaf
    rw [same]
    exact (readValue_leaf depth c _ isFirst noOther).trans leaf
  | .text s, depth + 1, rest, _, _, _ => readValue_text depth s rest
  | .array [], depth + 1, rest, _, _, _ => rfl
  | .array (item :: items), depth + 1, rest, .array _ allLegal, deep, _ => by
    obtain ⟨first, others⟩ := List.forall_mem_cons.mp allLegal
    rw [chars] at deep
    simp only [List.length_cons, List.length_append] at deep
    exact readValue_array_cons depth rest item items first
      (readValue_chars item depth _ first (by omega) (stops_tailChars items rest))
      (readItems_tailChars items depth rest others (by omega))
  | .object [], depth + 1, rest, _, _, _ => rfl
  | .object ((key, value) :: fields), depth + 1, rest, .object _ allLegal, deep, _ => by
    obtain ⟨first, others⟩ := List.forall_mem_cons.mp allLegal
    rw [chars] at deep
    simp only [List.length_cons, List.length_append] at deep
    obtain ⟨depth, rfl⟩ : ∃ fewer, depth = fewer + 1 := ⟨depth - 1, by omega⟩
    exact readValue_object_cons _ rest key value fields
      (readField_chars depth key value _
        (readValue_chars value depth _ first (by omega) (stops_tailFields fields rest)))
      (readFields_tailFields fields (depth + 1) rest others (by omega))

theorem readItems_tailChars : ∀ (items : List Json) (depth : Nat) (rest : List Char),
    (∀ item ∈ items, item.Legal) → 2 * (tailChars items).length < depth →
      readItems depth (tailChars items ++ ']' :: rest) = some (items, rest)
  | [], depth + 1, rest, _, _ => rfl
  | item :: items, depth + 1, rest, allLegal, deep => by
    obtain ⟨first, others⟩ := List.forall_mem_cons.mp allLegal
    rw [tailChars] at deep ⊢
    simp only [List.length_cons, List.length_append] at deep
    have head := readValue_chars item depth _ first (by omega) (stops_tailChars items rest)
    have tail := readItems_tailChars items depth rest others (by omega)
    rw [List.cons_append, List.cons_append, List.append_assoc, readItems_cons, head]
    simp [tail]

theorem readFields_tailFields : ∀ (fields : List (String × Json)) (depth : Nat) (rest : List Char),
    (∀ field ∈ fields, field.2.Legal) → 2 * (tailFields fields).length < depth →
      readFields depth (tailFields fields ++ '\x7d' :: rest) = some (fields, rest)
  | [], depth + 1, rest, _, _ => rfl
  | (key, value) :: fields, depth + 1, rest, allLegal, deep => by
    obtain ⟨first, others⟩ := List.forall_mem_cons.mp allLegal
    rw [tailFields] at deep ⊢
    simp only [List.length_cons, List.length_append] at deep
    obtain ⟨depth, rfl⟩ : ∃ fewer, depth = fewer + 1 := ⟨depth - 1, by omega⟩
    have head := readField_chars depth key value _
        (readValue_chars value depth _ first (by omega) (stops_tailFields fields rest))
    have tail := readFields_tailFields fields (depth + 1) rest others (by omega)
    simp only [List.cons_append, List.append_assoc] at head ⊢
    rw [readFields_cons, head]
    simp [tail]

end

theorem ofText?_compact (v : Json) (legal : v.Legal) : ofText? v.compact = some v := by
  have read := readValue_chars v (2 * v.chars.length + 2) [] legal (by omega) nofun
  rw [List.append_nil] at read
  rw [ofText?, compact, String.toList_ofList, read]
  rfl

end SimpleFiles.Json
