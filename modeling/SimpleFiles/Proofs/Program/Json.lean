import SimpleFiles.Program.Json
import SimpleFiles.Proofs.Json.Reading

/-! A program is read back from its JSON form: the tag of a statement, the fields of a record, a
span that is left out. -/
namespace SimpleFiles

theorem mapM_map_eq_some {α β : Type} (encode : α → β) (decode : β → Option α) (items : List α)
    (h : ∀ item ∈ items, decode (encode item) = some item) :
    (items.map encode).mapM decode = some items := by
  induction items with
  | nil => rfl
  | cons item rest ih =>
    obtain ⟨first, others⟩ := List.forall_mem_cons.mp h
    rw [List.map_cons, List.mapM_cons, first, ih others]
    rfl

theorem exists_of_mem_mapM {α β : Type} (decode : β → Option α) (values : List β) (items : List α)
    (h : values.mapM decode = some items) :
    ∀ item ∈ items, ∃ value ∈ values, decode value = some item := by
  induction values generalizing items with
  | nil =>
    cases h
    exact nofun
  | cons value rest ih =>
    rw [List.mapM_cons] at h
    obtain ⟨first, found, h⟩ := Option.bind_eq_some_iff.mp h
    obtain ⟨others, read, h⟩ := Option.bind_eq_some_iff.mp h
    cases h
    refine List.forall_mem_cons.mpr ⟨⟨value, List.mem_cons_self .., found⟩, fun item inside => ?_⟩
    obtain ⟨value, member, found⟩ := ih others read item inside
    exact ⟨value, List.mem_cons_of_mem _ member, found⟩

namespace Json

theorem word?_nat (n : Nat) (h : n < Word.count64) : (nat n).word? = some n := by
  rw [word?, nat?_nat, Option.filter_some]
  simp [h]

theorem lt_of_word? (value : Json) (n : Nat) (h : value.word? = some n) : n < Word.count64 := by
  obtain ⟨-, fits⟩ := Option.filter_eq_some_iff.mp h
  simpa using fits

end Json

namespace Span

instance (s : Span) : Decidable s.FitsWords :=
  inferInstanceAs (Decidable (∀ n ∈ _, n < Word.count64))

variable (s : Span) (fields : List (String × Json))

theorem ofJson?_toJson (fits : s.FitsWords) : ofJson? s.toJson = some s := by
  simp only [FitsWords, List.forall_mem_cons] at fits
  obtain ⟨start, stop, startLine, startColumn, stopLine, stopColumn, -⟩ := fits
  simp [ofJson?, toJson, Json.record?, Json.fieldWord?, Json.lookup, Json.word?_nat, start, stop,
    startLine, startColumn, stopLine, stopColumn]

theorem fitsWords_of_ofJson? (value : Json) (h : ofJson? value = some s) : s.FitsWords := by
  have fits : ∀ name fields n, Json.fieldWord? name fields = some n → n < Word.count64 := by
    intro name fields n read
    obtain ⟨field, -, word⟩ := Option.bind_eq_some_iff.mp read
    exact Json.lt_of_word? field n word
  obtain ⟨fields, -, h⟩ := Option.bind_eq_some_iff.mp h
  obtain ⟨start, startRead, h⟩ := Option.bind_eq_some_iff.mp h
  obtain ⟨stop, stopRead, h⟩ := Option.bind_eq_some_iff.mp h
  obtain ⟨startLine, startLineRead, h⟩ := Option.bind_eq_some_iff.mp h
  obtain ⟨startColumn, startColumnRead, h⟩ := Option.bind_eq_some_iff.mp h
  obtain ⟨stopLine, stopLineRead, h⟩ := Option.bind_eq_some_iff.mp h
  obtain ⟨stopColumn, stopColumnRead, h⟩ := Option.bind_eq_some_iff.mp h
  cases h
  simp only [FitsWords, List.forall_mem_cons]
  exact ⟨fits _ _ _ startRead, fits _ _ _ stopRead, fits _ _ _ startLineRead,
    fits _ _ _ startColumnRead, fits _ _ _ stopLineRead, fits _ _ _ stopColumnRead, nofun⟩

theorem fitsWords_zero : zero.FitsWords := by decide

theorem fitsWords_of_ofFields? (h : ofFields? fields = some s) : s.FitsWords := by
  unfold ofFields? at h
  split at h
  · cases h
    exact fitsWords_zero
  · exact fitsWords_of_ofJson? s _ h

@[simp] theorem lookup_toField (name : String) (other : name ≠ "span") :
    Json.lookup name s.toField = none := by
  rw [toField]
  split
  · rfl
  · simp [Json.lookup, other.symm]

@[simp] theorem ofFields?_cons (name : String) (value : Json) (other : name ≠ "span") :
    ofFields? ((name, value) :: fields) = ofFields? fields := by
  rw [ofFields?, Json.lookup, if_neg other, Option.or_none, ofFields?]

@[simp] theorem ofFields?_toField (fits : s.FitsWords) : ofFields? s.toField = some s := by
  rw [toField]
  split
  · rename_i isZero
    rw [isZero]
    rfl
  · exact ofJson?_toJson s fits

end Span

open Json in
theorem Span.legal_toField (s : Span) : ∀ field ∈ s.toField, field.2.Legal := by
  have nat : ∀ n, (nat n).Legal := fun n => .number _ (isLiteral_toString n)
  rw [toField]
  split
  · nofun
  · refine List.forall_mem_singleton.mpr (.object _ ?_)
    simp [nat]

theorem Action.ofJson?_toJson (a : Action) : ofJson? a.toJson = some a := by
  cases a <;> rfl

theorem Parameter.ofJson?_toJson (p : Parameter) (fits : p.span.FitsWords) :
    ofJson? p.toJson = some p := by
  simp [ofJson?, toJson, Json.record?, Json.fieldText?, Json.lookup, Json.text?, fits]

theorem Action.legal_toJson (a : Action) : a.toJson.Legal := by
  cases a with
  | unsupported word => exact .object _ (List.forall_mem_singleton.mpr (.text word))
  | _ => exact .text _

theorem Json.legal_record (fields : List (String × Json)) (s : Span)
    (h : ∀ field ∈ fields, field.2.Legal) : (Json.object (fields ++ s.toField)).Legal :=
  .object _ (List.forall_mem_append.mpr ⟨h, s.legal_toField⟩)

theorem Parameter.legal_toJson (p : Parameter) : p.toJson.Legal :=
  Json.legal_record _ _ (by simp [Json.Legal.text])

theorem Parameter.legal_list (params : List Parameter) : (Json.array (params.map toJson)).Legal :=
  .array _ (List.forall_mem_map.mpr fun p _ => p.legal_toJson)

theorem Statement.legal_toJson (stmt : Statement) : stmt.toJson.Legal := by
  cases stmt with
  | instruction declared =>
    exact Json.legal_record _ _ (by
      simp [Json.Legal.text, Action.legal_toJson, Parameter.legal_list])
  | condition declared =>
    exact Json.legal_record _ _ (by simp [Json.Legal.text, Parameter.legal_list])
  | assign key value span => exact Json.legal_record _ _ (by simp [Json.Legal.text])
  | execute name condition span =>
    cases condition <;> exact Json.legal_record _ _ (by simp [Json.Legal.text])

theorem Program.legal_toJson (p : Program) : p.toJson.Legal :=
  Json.legal_record _ _ (List.forall_mem_singleton.mpr
    (.array _ (List.forall_mem_map.mpr fun stmt _ => stmt.legal_toJson)))

theorem Parameter.listOfFields?_of_lookup (params : List Parameter) (fields : List (String × Json))
    (fits : ∀ p ∈ params, p.span.FitsWords)
    (h : Json.lookup "params" fields = some (.array (params.map toJson))) :
    listOfFields? fields = some params := by
  rw [listOfFields?, h]
  exact mapM_map_eq_some toJson ofJson? params fun p member => ofJson?_toJson p (fits p member)

theorem Parameter.fitsWords_of_ofJson? (p : Parameter) (value : Json) (h : ofJson? value = some p) :
    p.span.FitsWords := by
  obtain ⟨fields, -, h⟩ := Option.bind_eq_some_iff.mp h
  obtain ⟨key, -, h⟩ := Option.bind_eq_some_iff.mp h
  obtain ⟨text, -, h⟩ := Option.bind_eq_some_iff.mp h
  obtain ⟨span, read, h⟩ := Option.bind_eq_some_iff.mp h
  cases h
  exact Span.fitsWords_of_ofFields? span fields read

theorem Parameter.fitsWords_of_listOfFields? (params : List Parameter)
    (fields : List (String × Json)) (h : listOfFields? fields = some params) :
    ∀ p ∈ params, p.span.FitsWords := by
  intro p member
  obtain ⟨field, -, h⟩ := Option.bind_eq_some_iff.mp h
  obtain ⟨items, -, h⟩ := Option.bind_eq_some_iff.mp h
  obtain ⟨value, -, read⟩ := exists_of_mem_mapM ofJson? items params h p member
  exact fitsWords_of_ofJson? p value read

namespace Statement

def spans : Statement → List Span
  | .instruction declared => declared.span :: declared.params.map (·.span)
  | .condition declared => declared.span :: declared.params.map (·.span)
  | .assign _ _ span => [span]
  | .execute _ _ span => [span]

theorem ofJson?_toJson (stmt : Statement) (fits : ∀ s ∈ stmt.spans, s.FitsWords) :
    ofJson? stmt.toJson = some stmt := by
  cases stmt with
  | instruction declared =>
    obtain ⟨whole, others⟩ := List.forall_mem_cons.mp fits
    rw [List.forall_mem_map] at others
    have params := fun fields => Parameter.listOfFields?_of_lookup declared.params fields others
    simp [toJson, ofJson?, instructionOfFields?, Json.fieldText?, Json.lookup, Json.text?,
      Action.ofJson?_toJson, params, whole]
  | condition declared =>
    obtain ⟨whole, others⟩ := List.forall_mem_cons.mp fits
    rw [List.forall_mem_map] at others
    have params := fun fields => Parameter.listOfFields?_of_lookup declared.params fields others
    simp [toJson, ofJson?, conditionOfFields?, Json.fieldText?, Json.lookup, Json.text?, params,
      whole]
  | assign key value span =>
    have whole := fits span (List.mem_singleton.mpr rfl)
    simp [toJson, ofJson?, Json.fieldText?, Json.lookup, Json.text?, whole]
  | execute name condition span =>
    have whole := fits span (List.mem_singleton.mpr rfl)
    cases condition with
    | none => simp [toJson, ofJson?, Json.fieldText?, Json.lookup, Json.text?, whole]
    | some under => simp [toJson, ofJson?, Json.fieldText?, Json.lookup, Json.text?, whole]

theorem fitsWords_of_instructionOfFields? (stmt : Statement) (fields : List (String × Json))
    (h : instructionOfFields? fields = some stmt) : ∀ s ∈ stmt.spans, s.FitsWords := by
  obtain ⟨name, -, h⟩ := Option.bind_eq_some_iff.mp h
  obtain ⟨action, -, h⟩ := Option.bind_eq_some_iff.mp h
  obtain ⟨params, listed, h⟩ := Option.bind_eq_some_iff.mp h
  obtain ⟨span, read, h⟩ := Option.bind_eq_some_iff.mp h
  cases h
  rw [spans, List.forall_mem_cons, List.forall_mem_map]
  exact ⟨Span.fitsWords_of_ofFields? span fields read,
    Parameter.fitsWords_of_listOfFields? params fields listed⟩

theorem fitsWords_of_conditionOfFields? (stmt : Statement) (fields : List (String × Json))
    (h : conditionOfFields? fields = some stmt) : ∀ s ∈ stmt.spans, s.FitsWords := by
  obtain ⟨name, -, h⟩ := Option.bind_eq_some_iff.mp h
  obtain ⟨params, listed, h⟩ := Option.bind_eq_some_iff.mp h
  obtain ⟨span, read, h⟩ := Option.bind_eq_some_iff.mp h
  cases h
  rw [spans, List.forall_mem_cons, List.forall_mem_map]
  exact ⟨Span.fitsWords_of_ofFields? span fields read,
    Parameter.fitsWords_of_listOfFields? params fields listed⟩

theorem fitsWords_of_ofJson? (stmt : Statement) (value : Json) (h : ofJson? value = some stmt) :
    ∀ s ∈ stmt.spans, s.FitsWords := by
  unfold ofJson? at h
  split at h
  · rename_i fields
    obtain ⟨tag, -, h⟩ := Option.bind_eq_some_iff.mp h
    split at h
    · exact fitsWords_of_instructionOfFields? stmt fields h
    split at h
    · exact fitsWords_of_conditionOfFields? stmt fields h
    split at h
    · obtain ⟨name, -, h⟩ := Option.bind_eq_some_iff.mp h
      obtain ⟨span, read, h⟩ := Option.bind_eq_some_iff.mp h
      cases h
      exact List.forall_mem_singleton.mpr (Span.fitsWords_of_ofFields? span fields read)
    split at h
    · obtain ⟨name, -, h⟩ := Option.bind_eq_some_iff.mp h
      obtain ⟨under, -, h⟩ := Option.bind_eq_some_iff.mp h
      obtain ⟨span, read, h⟩ := Option.bind_eq_some_iff.mp h
      cases h
      exact List.forall_mem_singleton.mpr (Span.fitsWords_of_ofFields? span fields read)
    split at h
    · obtain ⟨key, -, h⟩ := Option.bind_eq_some_iff.mp h
      obtain ⟨text, -, h⟩ := Option.bind_eq_some_iff.mp h
      obtain ⟨span, read, h⟩ := Option.bind_eq_some_iff.mp h
      cases h
      exact List.forall_mem_singleton.mpr (Span.fitsWords_of_ofFields? span fields read)
    · cases h
  · split at h
    · obtain ⟨fields, -, h⟩ := Option.bind_eq_some_iff.mp h
      exact fitsWords_of_instructionOfFields? stmt fields h
    split at h
    · obtain ⟨fields, -, h⟩ := Option.bind_eq_some_iff.mp h
      exact fitsWords_of_conditionOfFields? stmt fields h
    · cases h
  · cases h

end Statement

namespace Program

def spans (p : Program) : List Span := p.span :: p.statements.flatMap Statement.spans

def FitsWords (p : Program) : Prop := ∀ s ∈ p.spans, s.FitsWords

instance (p : Program) : Decidable p.FitsWords :=
  inferInstanceAs (Decidable (∀ s ∈ p.spans, s.FitsWords))

theorem fitsWords_iff (p : Program) :
    p.FitsWords ↔ p.span.FitsWords ∧ ∀ stmt ∈ p.statements, ∀ s ∈ stmt.spans, s.FitsWords := by
  rw [FitsWords, spans, List.forall_mem_cons, List.forall_mem_flatMap]

theorem ofJson?_toJson (p : Program) (fits : p.FitsWords) : ofJson? p.toJson = some p := by
  obtain ⟨whole, each⟩ := p.fitsWords_iff.mp fits
  have statements := mapM_map_eq_some Statement.toJson Statement.ofJson? p.statements
    fun stmt member => stmt.ofJson?_toJson (each stmt member)
  simp [ofJson?, toJson, Json.record?, Json.lookup, Json.items?, statements, whole]

theorem fitsWords_of_ofJson? (p : Program) (value : Json) (h : ofJson? value = some p) :
    p.FitsWords := by
  obtain ⟨fields, -, h⟩ := Option.bind_eq_some_iff.mp h
  obtain ⟨field, -, h⟩ := Option.bind_eq_some_iff.mp h
  obtain ⟨items, -, h⟩ := Option.bind_eq_some_iff.mp h
  obtain ⟨statements, listed, h⟩ := Option.bind_eq_some_iff.mp h
  obtain ⟨span, read, h⟩ := Option.bind_eq_some_iff.mp h
  cases h
  refine (fitsWords_iff _).mpr ⟨Span.fitsWords_of_ofFields? span fields read, ?_⟩
  intro stmt member
  obtain ⟨value, -, read⟩ :=
    exists_of_mem_mapM Statement.ofJson? items statements listed stmt member
  exact stmt.fitsWords_of_ofJson? value read

/-- What is written of a program is read back, whatever is in it; and a program that was read has
one written form of its own, which is read as the same program. -/
theorem decode?_encode :
    (∀ p : Program, p.FitsWords → decode? p.encode = some p) ∧
      ∀ value p, ofJson? value = some p → decode? p.encode = some p ∧
        ∀ other q, ofJson? other = some q → (p.encode = q.encode ↔ p = q) := by
  have back : ∀ p : Program, p.FitsWords → decode? p.encode = some p := by
    intro p fits
    rw [decode?, encode, Json.ofText?_compact _ p.legal_toJson, Option.bind_some,
      ofJson?_toJson p fits]
  refine ⟨back, fun value p h => ⟨back p (p.fitsWords_of_ofJson? value h), fun other q h' => ?_⟩⟩
  constructor
  · intro same
    have read := back p (p.fitsWords_of_ofJson? value h)
    rw [same, back q (q.fitsWords_of_ofJson? other h')] at read
    exact (Option.some.inj read).symm
  · rintro rfl
    rfl

/-- Every kind of statement and of character, an action that is called like another, and the
largest numbers. -/
def medley : Program where
  statements := [
    .instruction ⟨"quoted \" and \\", .unsupported "group",
      [⟨"key\n\t\x01", "ärger € 😀", ⟨0, 0, 0, 0, 0, Word.count64 - 1⟩⟩, ⟨"", "", .zero⟩], .zero⟩,
    .condition ⟨"", [], ⟨1, 20, 300, 4000, 50000, 600000⟩⟩,
    .execute "make" none .zero, .execute "make" (some "t") ⟨7, 8, 9, 10, 11, 12⟩,
    .assign "t" "\x7b\x7d" .zero]
  span := ⟨Word.count64 - 1, 0, 0, 0, 0, 0⟩

theorem decode?_encode_medley :
    medley.FitsWords ∧ decode? medley.encode = some medley ∧
      ofJson? medley.toJson = some medley := by
  have fits : medley.FitsWords := by decide
  exact ⟨fits, decode?_encode.1 medley fits, ofJson?_toJson medley fits⟩

end Program
end SimpleFiles
