import SimpleFiles.Proofs.Check.Soundness
import SimpleFiles.Proofs.Text.Integer

/-! The programs that the checker accepts. What makes a program well-formed is said of
its declarations and executions alone; the checker finds no error exactly in those
programs. -/
namespace SimpleFiles

open Check

/-- The value of the last parameter with a key, keys being compared in lower case. -/
def LastValue (params : List Parameter) (key value : String) : Prop :=
  ∃ before p after, params = before ++ p :: after ∧ p.lowerKey = key ∧ p.value = value ∧
    ∀ q ∈ after, q.lowerKey ≠ key

def HasKey (params : List Parameter) (key : String) : Prop := ∃ value, LastValue params key value

/-- A value that is a reference, or that has a character other than a blank. -/
def IsTelling (value : String) : Prop :=
  (∃ name, value = Reference.ofName name) ∨ ∃ c ∈ value.toList, ¬Text.isBlank c

def HasTellingValue (params : List Parameter) (key : String) : Prop :=
  ∃ value, LastValue params key value ∧ IsTelling value

/-- A reference, or an integer from one up to the greatest of 32 bits. -/
def IsCount (value : String) : Prop :=
  (∃ name, value = Reference.ofName name) ∨
    ∃ n, Text.IsInteger (Text.trim value).toList n ∧ 1 ≤ n ∧ n ≤ 2 ^ 31 - 1

def Action.IsServedBy (params : List Parameter) : Action → Prop
  | .createFile | .createFolder =>
    (HasKey params "name" ↔ ¬HasKey params "namefile") ∧ HasTellingValue params "path" ∧
      ∀ count, LastValue params "count" count → IsCount count
  | .group => ∀ key ∈ ["group_target", "path", "mode"], HasTellingValue params key
  | .rename => ∀ key ∈ ["path", "mode"], HasTellingValue params key
  | .unsupported _ => False

structure DeclaredApart (p : Program) (name? : Statement → Option String) : Prop where
  apart : ∀ before s between t after, p.statements = before ++ s :: between ++ t :: after →
    ∀ name, name? s = some name → name? t ≠ some name
  telling : ∀ s ∈ p.statements, ∀ name, name? s = some name → ∃ c ∈ name.toList, ¬Text.isBlank c

def Statement.instructionName? : Statement → Option String
  | .instruction declared => some declared.name
  | _ => none

def Statement.conditionName? : Statement → Option String
  | .condition declared => some declared.name
  | _ => none

/-- Names are unique and not blank, executions name what is declared before, and each
instruction has what its action needs. -/
structure Program.IsWellFormed (p : Program) : Prop where
  instructions : DeclaredApart p Statement.instructionName?
  conditions : DeclaredApart p Statement.conditionName?
  declared : ∀ before name under span after,
    p.statements = before ++ .execute name under span :: after →
      (∃ s ∈ before, s.instructionName? = some name) ∧
        ∀ other, under = some other → ∃ s ∈ before, s.conditionName? = some other
  served : ∀ d, .instruction d ∈ p.statements → d.action.IsServedBy d.params

/-! The parameters of an instruction. -/

theorem lastValue?_eq_some_iff (params : List Parameter) (key value : String) :
    lastValue? params key = some value ↔ LastValue params key value := by
  simp only [lastValue?, Option.map_eq_some_iff, List.find?_eq_some_iff_append]
  constructor
  · rintro ⟨p, ⟨same, after, before, split, others⟩, rfl⟩
    have order : params = before.reverse ++ p :: after.reverse := by
      rw [← List.reverse_reverse params, split]
      simp
    refine ⟨before.reverse, p, after.reverse, order, by simpa using same, rfl, fun q hq => ?_⟩
    simpa using others q (List.mem_reverse.mp hq)
  · rintro ⟨before, p, after, rfl, same, rfl, others⟩
    refine ⟨p, ⟨by simpa using same, after.reverse, before.reverse, by simp, fun q hq => ?_⟩, rfl⟩
    simpa using others q (List.mem_reverse.mp hq)

theorem hasKey_iff (params : List Parameter) (key : String) :
    HasKey params key ↔ (lastValue? params key).isSome = true := by
  simp only [HasKey, Option.isSome_iff_exists, lastValue?_eq_some_iff]

theorem isReference_iff (value : String) :
    Reference.isReference value = true ↔ ∃ name, value = Reference.ofName name := by
  simp only [Reference.isReference, Option.isSome_iff_exists, Reference.name?_eq_some_iff]

theorem not_isBlankText_iff (value : String) :
    Text.isBlankText value = false ↔ ∃ c ∈ value.toList, ¬Text.isBlank c := by
  simp [Text.isBlankText]

theorem isPresent_iff (params : List Parameter) (key : String) :
    isPresent (lastValue? params key) = true ↔ HasTellingValue params key := by
  simp only [isPresent, Option.any_eq_true, Bool.or_eq_true, Bool.not_eq_true', isReference_iff,
    not_isBlankText_iff, lastValue?_eq_some_iff]
  rfl

theorem countIssues_eq_nil_iff (action : Action) (count : String) :
    countIssues action count = [] ↔ IsCount count := by
  rw [IsCount, ← isReference_iff, countIssues]
  by_cases reference : Reference.isReference count = true
  · simp [reference]
  · rw [if_neg reference]
    have bounds (n : Int) : Text.int32? (Text.trim count) = some n ∧ n > 0 ↔
        Text.IsInteger (Text.trim count).toList n ∧ 1 ≤ n ∧ n ≤ 2 ^ 31 - 1 := by
      rw [Text.int32?_eq_some_iff]
      constructor
      · rintro ⟨⟨written, -, small⟩, positive⟩
        exact ⟨written, by omega, by omega⟩
      · rintro ⟨written, positive, small⟩
        exact ⟨⟨written, by omega, by omega⟩, by omega⟩
    simp only [← bounds, reference]
    cases Text.int32? (Text.trim count) with
    | none => simp
    | some n => simp

theorem missingIssues_eq_nil_iff (action : Action) (keys : List String) (params : List Parameter) :
    missingIssues action keys params = [] ↔ ∀ key ∈ keys, HasTellingValue params key := by
  simp only [missingIssues, List.map_eq_nil_iff, List.filter_eq_nil_iff, Bool.not_eq_true',
    Bool.not_eq_false, isPresent_iff]

theorem createIssues_eq_nil_iff (action : Action) (params : List Parameter) :
    createIssues action params = [] ↔
      (HasKey params "name" ↔ ¬HasKey params "namefile") ∧ HasTellingValue params "path" ∧
        ∀ count, LastValue params "count" count → IsCount count := by
  simp only [createIssues, List.append_eq_nil_iff, and_assoc, hasKey_iff, ← isPresent_iff,
    ← lastValue?_eq_some_iff, ← countIssues_eq_nil_iff action]
  refine and_congr ?_ (and_congr ?_ ?_)
  · cases lastValue? params "name" <;> cases lastValue? params "namefile" <;> simp
  · split <;> simp [*]
  · cases lastValue? params "count" <;> simp

theorem actionIssues_eq_nil_iff (declared : Instruction) :
    actionIssues declared = [] ↔ declared.action.IsServedBy declared.params := by
  rw [actionIssues]
  cases declared.action with
  | createFile => exact createIssues_eq_nil_iff _ _
  | createFolder => exact createIssues_eq_nil_iff _ _
  | group => exact missingIssues_eq_nil_iff _ _ _
  | rename => exact missingIssues_eq_nil_iff _ _ _
  | unsupported word => simp [Action.IsServedBy]

/-! The names of declarations. -/

theorem nameIssues_eq_nil_iff (kind : Declared) (name : String) (earlier : List String) :
    nameIssues kind name earlier = [] ↔ (∃ c ∈ name.toList, ¬Text.isBlank c) ∧ name ∉ earlier := by
  rw [nameIssues, ← not_isBlankText_iff]
  by_cases blank : Text.isBlankText name = true
  · simp [blank]
  · by_cases known : name ∈ earlier
    · simp [blank, known]
    · simp [blank, known]

theorem instructionNames_eq (statements : List Statement) :
    instructionNames statements = statements.filterMap Statement.instructionName? :=
  rfl

theorem conditionNames_eq (statements : List Statement) :
    conditionNames statements = statements.filterMap Statement.conditionName? :=
  rfl

theorem declaredApart_iff (p : Program) (name? : Statement → Option String) :
    DeclaredApart p name? ↔ ∀ before s after, p.statements = before ++ s :: after →
      ∀ name, name? s = some name →
        (∃ c ∈ name.toList, ¬Text.isBlank c) ∧ name ∉ before.filterMap name? := by
  constructor
  · rintro ⟨apart, telling⟩ before s after split name named
    refine ⟨telling s (by simp [split]) name named, fun known => ?_⟩
    obtain ⟨t, ht, same⟩ := List.mem_filterMap.mp known
    obtain ⟨early, between, rfl⟩ := List.append_of_mem ht
    exact apart early t between s after (by simp [split]) name same named
  · intro h
    constructor
    · intro before s between t after split name named same
      obtain ⟨-, fresh⟩ := h (before ++ s :: between) t after split name same
      exact fresh (List.mem_filterMap.mpr ⟨s, by simp, named⟩)
    · intro s hs name named
      obtain ⟨before, after, split⟩ := List.append_of_mem hs
      exact (h before s after split name named).1

theorem declarationIssues_eq_nil_iff (before : List Statement) (s : Statement) :
    declarationIssues before s = [] ↔
      (∀ name, s.instructionName? = some name →
        (∃ c ∈ name.toList, ¬Text.isBlank c) ∧
          name ∉ before.filterMap Statement.instructionName?) ∧
      ∀ name, s.conditionName? = some name →
        (∃ c ∈ name.toList, ¬Text.isBlank c) ∧
          name ∉ before.filterMap Statement.conditionName? := by
  cases s with
  | instruction d =>
    simp [declarationIssues, nameIssues_eq_nil_iff, instructionNames_eq, Statement.instructionName?,
      Statement.conditionName?]
  | condition d =>
    simp [declarationIssues, nameIssues_eq_nil_iff, conditionNames_eq, Statement.instructionName?,
      Statement.conditionName?]
  | assign key value span =>
    simp [declarationIssues, Statement.instructionName?, Statement.conditionName?]
  | execute name under span =>
    simp [declarationIssues, Statement.instructionName?, Statement.conditionName?]

/-! The names in executions. -/

theorem referenceIssues_eq_nil_iff (before : List Statement) (name : String)
    (under : Option String) (span : Span) :
    referenceIssues before (.execute name under span) = [] ↔
      (∃ s ∈ before, s.instructionName? = some name) ∧
        ∀ other, under = some other → ∃ s ∈ before, s.conditionName? = some other := by
  cases under with
  | none => simp [referenceIssues, instructionNames_eq]
  | some other => simp [referenceIssues, instructionNames_eq, conditionNames_eq]

/-! The whole program. -/

theorem Program.firstError?_of_accepted (p : Program) (h : p.Accepted) :
    Checker.default.firstError? p = none := by
  rw [Checker.firstError?_eq_none_iff]
  intro f hf
  rw [Bool.eq_false_iff]
  intro severe
  obtain ⟨before, s, rest, split, -, rule, hr, found⟩ := (Checker.mem_findings_iff _ p _).mp hf
  have own := rule.rule_of_mem_issues p _ s f.span f.issue found
  have grave : f.issue.severity = .error := by simpa [Finding.isError] using severe
  rw [Issue.severity_eq_error_iff, own] at grave
  have none : rule.issues p before s = [] := by
    cases rule with
    | duplicateDeclaration => exact h.declared before s rest split
    | undefinedReference => exact h.referenced before s rest split
    | instructionParameters =>
      cases s with
      | instruction d => exact List.map_eq_nil_iff.mpr (h.complete d (by simp [split]))
      | condition d => rfl
      | assign key value span => rfl
      | execute name under span => rfl
    | parameterKeys => exact absurd hr (by decide)
    | unusedInstruction => exact absurd rfl grave
  rw [none] at found
  cases found

theorem Program.accepted_iff_isWellFormed (p : Program) : p.Accepted ↔ p.IsWellFormed := by
  constructor
  · rintro ⟨declared, referenced, complete⟩
    have names before s after (split : p.statements = before ++ s :: after) :=
      (declarationIssues_eq_nil_iff before s).mp (declared before s after split)
    refine ⟨?_, ?_, ?_, ?_⟩
    · exact (declaredApart_iff p _).mpr fun before s after split => (names before s after split).1
    · exact (declaredApart_iff p _).mpr fun before s after split => (names before s after split).2
    · intro before name under span after split
      exact (referenceIssues_eq_nil_iff before name under span).mp (referenced before _ after split)
    · intro d hd
      exact (actionIssues_eq_nil_iff d).mp (complete d hd)
  · rintro ⟨instructions, conditions, declared, served⟩
    refine ⟨?_, ?_, ?_⟩
    · intro before s after split
      exact (declarationIssues_eq_nil_iff before s).mpr
        ⟨(declaredApart_iff p _).mp instructions before s after split,
          (declaredApart_iff p _).mp conditions before s after split⟩
    · intro before s after split
      cases s with
      | execute name under span =>
        exact (referenceIssues_eq_nil_iff before name under span).mpr
          (declared before name under span after split)
      | instruction d => rfl
      | condition d => rfl
      | assign key value span => rfl
    · intro d hd
      exact (actionIssues_eq_nil_iff d).mpr (served d hd)

/-- The checker with the default rules accepts exactly the well-formed programs. -/
theorem Checker.accepts_iff_isWellFormed (p : Program) :
    (Checker.default.firstError? p = none ↔ p.IsWellFormed) ∧
      ((∃ findings, Checker.default.check p = .ok findings) ↔ p.IsWellFormed) := by
  have accepted : Checker.default.firstError? p = none ↔ p.IsWellFormed := by
    rw [← p.accepted_iff_isWellFormed]
    exact ⟨p.accepted_of_firstError?, p.firstError?_of_accepted⟩
  refine ⟨accepted, ?_⟩
  rw [← accepted, Checker.check]
  cases Checker.default.firstError? p <;> simp

end SimpleFiles
