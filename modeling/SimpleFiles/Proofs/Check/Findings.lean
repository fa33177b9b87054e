import SimpleFiles.Proofs.Check.Reports

/-! What a program is like when the checker finds no error in it: names are unique,
what is executed is declared before, and no instruction lacks what its action needs. -/
namespace SimpleFiles

namespace Checker

variable (c : Checker) (p : Program)

theorem firstError?_eq_none_iff :
    c.firstError? p = none ↔ ∀ f ∈ c.findings p, f.isError = false := by
  simp [firstError?]

theorem firstError?_eq_some_iff (found : Check.Finding) :
    c.firstError? p = some found ↔ found.isError = true ∧ ∃ before after,
      c.findings p = before ++ found :: after ∧ ∀ f ∈ before, f.isError = false := by
  simp [firstError?, List.find?_eq_some_iff_append]

end Checker

namespace Check

theorem Issue.severity_eq_error_iff (issue : Issue) :
    issue.severity = .error ↔ issue.rule ≠ .unusedInstruction := by
  cases issue <;> simp [severity, rule]

private theorem nameIssues_rule (kind : Declared) (name : String) (earlier : List String)
    (issue : Issue) (h : issue ∈ nameIssues kind name earlier) :
    issue.rule = .duplicateDeclaration := by
  unfold nameIssues at h
  split at h
  · rw [List.mem_singleton.mp h]
    rfl
  · split at h
    · rw [List.mem_singleton.mp h]
      rfl
    · cases h

private theorem declarationIssues_rule (before : List Statement) (s : Statement) (span : Span)
    (issue : Issue) (h : (span, issue) ∈ declarationIssues before s) :
    issue.rule = .duplicateDeclaration := by
  cases s with
  | instruction declared =>
    obtain ⟨found, hf, same⟩ := List.mem_map.mp h
    cases same
    exact nameIssues_rule _ _ _ _ hf
  | condition declared =>
    obtain ⟨found, hf, same⟩ := List.mem_map.mp h
    cases same
    exact nameIssues_rule _ _ _ _ hf
  | assign key value place => cases h
  | execute name condition place => cases h

private theorem referenceIssues_rule (before : List Statement) (s : Statement) (span : Span)
    (issue : Issue) (h : (span, issue) ∈ referenceIssues before s) :
    issue.rule = .undefinedReference := by
  cases s with
  | instruction declared => cases h
  | condition declared => cases h
  | assign key value place => cases h
  | execute name condition place =>
    cases condition with
    | none =>
      simp only [referenceIssues] at h
      split at h
      · cases h
      · rw [(Prod.mk.inj (List.mem_singleton.mp h)).2]
        rfl
    | some under =>
      rcases List.mem_append.mp h with h | h
      · split at h
        · cases h
        · rw [(Prod.mk.inj (List.mem_singleton.mp h)).2]
          rfl
      · split at h
        · cases h
        · rw [(Prod.mk.inj (List.mem_singleton.mp h)).2]
          rfl

private theorem countIssues_rule (action : Action) (count : String) (issue : Issue)
    (h : issue ∈ countIssues action count) : issue.rule = .instructionParameters := by
  unfold countIssues at h
  split at h
  · cases h
  · split at h
    · split at h
      · cases h
      · rw [List.mem_singleton.mp h]
        rfl
    · rw [List.mem_singleton.mp h]
      rfl

private theorem createIssues_rule (action : Action) (params : List Parameter) (issue : Issue)
    (h : issue ∈ createIssues action params) : issue.rule = .instructionParameters := by
  unfold createIssues at h
  simp only [List.mem_append] at h
  rcases h with (h | h) | h
  · split at h
    · rw [List.mem_singleton.mp h]
      rfl
    · rw [List.mem_singleton.mp h]
      rfl
    · cases h
  · split at h
    · cases h
    · rw [List.mem_singleton.mp h]
      rfl
  · cases hc : lastValue? params "count" with
    | none =>
      rw [hc] at h
      cases h
    | some count =>
      rw [hc] at h
      exact countIssues_rule action count issue h

private theorem missingIssues_rule (action : Action) (keys : List String)
    (params : List Parameter) (issue : Issue) (h : issue ∈ missingIssues action keys params) :
    issue.rule = .instructionParameters := by
  obtain ⟨key, -, rfl⟩ := List.mem_map.mp h
  rfl

private theorem actionIssues_rule (declared : Instruction) (issue : Issue)
    (h : issue ∈ actionIssues declared) : issue.rule = .instructionParameters := by
  unfold actionIssues at h
  split at h
  · exact createIssues_rule _ _ _ h
  · exact createIssues_rule _ _ _ h
  · exact missingIssues_rule _ _ _ _ h
  · exact missingIssues_rule _ _ _ _ h
  · rw [List.mem_singleton.mp h]
    rfl

private theorem keyIssues_rule (params : List Parameter) (span : Span) (issue : Issue)
    (h : (span, issue) ∈ keyIssues params) : issue.rule = .parameterKeys := by
  obtain ⟨p, -, hp⟩ := List.mem_filterMap.mp h
  obtain ⟨found, hf, same⟩ := Option.map_eq_some_iff.mp hp
  cases same
  unfold keyIssue? at hf
  split at hf
  · cases hf
    rfl
  · split at hf
    · cases hf
      rfl
    · split at hf
      · cases hf
      · cases hf
        rfl

theorem Rule.rule_of_mem_issues (rule : Rule) (program : Program) (before : List Statement)
    (s : Statement) (span : Span) (issue : Issue)
    (h : (span, issue) ∈ rule.issues program before s) : issue.rule = rule := by
  cases rule with
  | duplicateDeclaration => exact declarationIssues_rule before s span issue h
  | undefinedReference => exact referenceIssues_rule before s span issue h
  | instructionParameters =>
    cases s with
    | instruction declared =>
      obtain ⟨found, hf, same⟩ := List.mem_map.mp h
      cases same
      exact actionIssues_rule declared issue hf
    | condition declared => cases h
    | assign key value place => cases h
    | execute name condition place => cases h
  | parameterKeys =>
    cases s with
    | instruction declared => exact keyIssues_rule _ span issue h
    | condition declared => exact keyIssues_rule _ span issue h
    | assign key value place => cases h
    | execute name condition place => cases h
  | unusedInstruction =>
    cases s with
    | instruction declared =>
      simp only [Rule.issues, usageIssues] at h
      split at h
      · cases h
      · rw [(Prod.mk.inj (List.mem_singleton.mp h)).2]
        rfl
    | condition declared => cases h
    | assign key value place => cases h
    | execute name condition place => cases h

theorem mem_findingsFrom_iff (rules : List Rule) (program : Program) (before : List Statement)
    (statements : List Statement) (f : Finding) :
    f ∈ findingsFrom rules program before statements ↔
      ∃ early s rest, statements = early ++ s :: rest ∧ f.statement = (before ++ early).length ∧
        ∃ rule ∈ rules, (f.span, f.issue) ∈ rule.issues program (before ++ early) s := by
  induction statements generalizing before with
  | nil => simp [findingsFrom]
  | cons first others ih =>
    simp only [findingsFrom, Rule.found, List.mem_append, List.mem_flatMap, List.mem_map, ih]
    constructor
    · rintro (⟨rule, hr, ⟨span, issue⟩, hi, rfl⟩ | ⟨early, s, rest, rfl, hs, found⟩)
      · exact ⟨[], first, others, rfl, by simp, rule, hr, by simpa using hi⟩
      · refine ⟨first :: early, s, rest, rfl, ?_, ?_⟩
        · simpa using hs
        · simpa using found
    · rintro ⟨early, s, rest, split, hs, rule, hr, hi⟩
      cases early with
      | nil =>
        simp only [List.nil_append, List.cons.injEq] at split
        obtain ⟨rfl, rfl⟩ := split
        refine .inl ⟨rule, hr, (f.span, f.issue), by simpa using hi, ?_⟩
        simp only [List.append_nil] at hs
        rw [← hs]
      | cons e early =>
        simp only [List.cons_append, List.cons.injEq] at split
        obtain ⟨rfl, rfl⟩ := split
        exact .inr ⟨early, s, rest, rfl, by simpa using hs, rule, hr, by simpa using hi⟩

end Check

theorem Checker.mem_findings_iff (c : Checker) (p : Program) (f : Check.Finding) :
    f ∈ c.findings p ↔
      ∃ early s rest, p.statements = early ++ s :: rest ∧ f.statement = early.length ∧
        ∃ rule ∈ c.rules, (f.span, f.issue) ∈ rule.issues p early s := by
  rw [c.findings_eq_findingsFrom]
  exact Check.mem_findingsFrom_iff c.rules p [] p.statements f

namespace Check

theorem issues_eq_nil (c : Checker) (p : Program) (h : c.firstError? p = none)
    (before rest : List Statement) (s : Statement) (split : p.statements = before ++ s :: rest)
    (rule : Rule) (hr : rule ∈ c.rules) (hu : rule ≠ .unusedInstruction) :
    rule.issues p before s = [] := by
  rw [List.eq_nil_iff_forall_not_mem]
  rintro ⟨span, issue⟩ hi
  have found : ⟨before.length, span, issue⟩ ∈ c.findings p :=
    (c.mem_findings_iff p _).mpr ⟨before, s, rest, split, rfl, rule, hr, hi⟩
  have severe : issue.severity = .error := by
    rw [Issue.severity_eq_error_iff, rule.rule_of_mem_issues p before s span issue hi]
    exact hu
  have mild := (c.firstError?_eq_none_iff p).mp h _ found
  simp [Finding.isError, severe] at mild

end Check
end SimpleFiles
