import Mathlib.Data.List.Pairwise
import SimpleFiles.Proofs.Check.Acceptance
import SimpleFiles.Proofs.Source.Rendering

/-! The strict checker. It finds what the default one finds, in the same order, and among
these what is wrong with the keys and the values of parameters. -/
namespace SimpleFiles

/-- A value that is not empty, under a key that stands in the list as it is written. -/
def Parameter.IsListed (p : Parameter) : Prop := p.value ≠ "" ∧ p.key ∈ Check.allowedKeys

namespace Check

/-- What is wrong with the keys and values of a statement, given by its index. -/
def keyFindingsOf (i : Nat) (s : Statement) : List Finding :=
  s.params.filterMap fun q => (keyIssue? q).map fun issue => ⟨i, q.span, issue⟩

def keyFindings (p : Program) : List Finding :=
  p.statements.zipIdx.flatMap fun (s, i) => keyFindingsOf i s

/-- Findings are listed by statement, and those of one statement by rule. -/
def Finding.Precedes (rules : List Rule) (f g : Finding) : Prop :=
  f.statement < g.statement ∨
    f.statement = g.statement ∧ rules.idxOf f.issue.rule ≤ rules.idxOf g.issue.rule

theorem Rule.of_mem_found {rule : Rule} {program : Program} {before : List Statement}
    {s : Statement} {f : Finding} (h : f ∈ rule.found program before s) :
    f.statement = before.length ∧ f.issue.rule = rule := by
  refine ⟨statement_of_mem_found h, ?_⟩
  obtain ⟨⟨span, issue⟩, hi, rfl⟩ := List.mem_map.mp h
  exact rule.rule_of_mem_issues program before s span issue hi

section
variable (rules : List Rule) (program : Program) (before : List Statement)

theorem filter_found (keep : Rule → Bool) (s : Statement) :
    (rules.flatMap (·.found program before s)).filter (fun f => keep f.issue.rule) =
      (rules.filter keep).flatMap (·.found program before s) := by
  induction rules with
  | nil => rfl
  | cons rule others ih =>
    have own : ∀ f ∈ rule.found program before s, keep f.issue.rule = keep rule :=
      fun f hf => congrArg keep (Rule.of_mem_found hf).2
    rw [List.flatMap_cons, List.filter_append, ih, List.filter_congr own]
    cases kept : keep rule <;> simp [kept]

theorem filter_findingsFrom (keep : Rule → Bool) (statements : List Statement) :
    (findingsFrom rules program before statements).filter (fun f => keep f.issue.rule) =
      findingsFrom (rules.filter keep) program before statements := by
  induction statements generalizing before with
  | nil => rfl
  | cons s rest ih =>
    rw [findingsFrom_cons, findingsFrom_cons, List.filter_append, filter_found, ih]

theorem findingsFrom_pairwise
    (ordered : rules.Pairwise fun a b => rules.idxOf a ≤ rules.idxOf b)
    (statements : List Statement) :
    (findingsFrom rules program before statements).Pairwise (Finding.Precedes rules) := by
  induction statements generalizing before with
  | nil => exact .nil
  | cons s rest ih =>
    rw [findingsFrom_cons, List.pairwise_append]
    refine ⟨?_, ih _, ?_⟩
    · rw [List.pairwise_flatMap]
      constructor
      · intro rule _
        refine List.pairwise_of_forall_mem_list fun f hf g hg => ?_
        obtain ⟨hs, hr⟩ := Rule.of_mem_found hf
        obtain ⟨hs', hr'⟩ := Rule.of_mem_found hg
        exact .inr ⟨hs.trans hs'.symm, Nat.le_of_eq (by rw [hr, hr'])⟩
      · refine ordered.imp fun {a b} before f hf g hg => ?_
        obtain ⟨hs, rfl⟩ := Rule.of_mem_found hf
        obtain ⟨hs', rfl⟩ := Rule.of_mem_found hg
        exact .inr ⟨hs.trans hs'.symm, before⟩
    · intro f hf g hg
      obtain ⟨rule, -, hf⟩ := List.mem_flatMap.mp hf
      left
      rw [(Rule.of_mem_found hf).1]
      exact lt_statement_of_mem_findingsFrom_concat _ _ _ _ _ g hg

end

/-! The rule for keys. -/

theorem keyIssue?_eq_none_iff (p : Parameter) : keyIssue? p = none ↔ p.IsListed := by
  unfold keyIssue? Parameter.IsListed
  by_cases noKey : p.key = ""
  · simp [noKey, allowedKeys]
  · by_cases noValue : p.value = ""
    · simp [noKey, noValue]
    · simp [noKey, noValue]

theorem keyListIssues_eq (s : Statement) : keyListIssues s = keyIssues s.params := by
  cases s <;> rfl

theorem found_parameterKeys (program : Program) (before : List Statement) (s : Statement) :
    Rule.found .parameterKeys program before s = keyFindingsOf before.length s := by
  simp only [Rule.found, Rule.issues, keyListIssues_eq, keyIssues, keyFindingsOf,
    List.map_filterMap, Option.map_map, Function.comp_def]

theorem findingsFrom_parameterKeys (program : Program) (before statements : List Statement) :
    findingsFrom [.parameterKeys] program before statements =
      (statements.zipIdx before.length).flatMap fun (s, i) => keyFindingsOf i s := by
  induction statements generalizing before with
  | nil => rfl
  | cons s rest ih =>
    rw [findingsFrom_cons, ih, List.length_append, List.length_singleton, List.zipIdx_cons,
      List.flatMap_cons, List.flatMap_cons, List.flatMap_nil, List.append_nil, found_parameterKeys]

theorem keyFindings_eq_nil_iff (p : Program) :
    keyFindings p = [] ↔ ∀ s ∈ p.statements, ∀ q ∈ s.params, q.IsListed := by
  simp only [keyFindings, keyFindingsOf, List.flatMap_eq_nil_iff, List.filterMap_eq_nil_iff,
    Option.map_eq_none_iff, keyIssue?_eq_none_iff]
  constructor
  · intro h s hs q hq
    obtain ⟨i, inside, rfl⟩ := List.mem_iff_getElem.mp hs
    exact h (_, i) (List.mem_zipIdx_iff_getElem?.mpr (List.getElem?_eq_getElem inside)) q hq
  · intro h entry he q hq
    exact h entry.1 (List.fst_mem_of_mem_zipIdx he) q hq

end Check

open Check

/-! Names of what is made. -/

theorem HasKey.exists_mem {params : List Parameter} {key : String} (h : HasKey params key) :
    ∃ q ∈ params, q.lowerKey = key := by
  obtain ⟨value, before, q, after, split, same, -, -⟩ := h
  exact ⟨q, by simp [split], same⟩

theorem named_of_isServedBy {a : Action} {params : List Parameter} (served : a.IsServedBy params)
    (creates : a = .createFile ∨ a = .createFolder) :
    HasKey params "name" ∨ HasKey params "namefile" := by
  have one : HasKey params "name" ↔ ¬HasKey params "namefile" := by
    rcases creates with rfl | rfl
    · exact served.1
    · exact served.1
  by_cases file : HasKey params "namefile"
  · exact .inr file
  · exact .inl (one.mpr file)

theorem exists_not_isListed {a : Action} {params : List Parameter} (served : a.IsServedBy params)
    (creates : a = .createFile ∨ a = .createFolder) : ∃ q ∈ params, ¬q.IsListed := by
  have barred : ∀ key ∈ allowedKeys, Text.lower key ≠ "name" ∧ Text.lower key ≠ "namefile" := by
    decide +kernel
  rcases named_of_isServedBy served creates with name | file
  · obtain ⟨q, hq, same⟩ := name.exists_mem
    exact ⟨q, hq, fun listed => (barred _ listed.2).1 same⟩
  · obtain ⟨q, hq, same⟩ := file.exists_mem
    exact ⟨q, hq, fun listed => (barred _ listed.2).2 same⟩

namespace Checker

variable (p : Program)

theorem findings_pairwise (c : Checker)
    (ordered : c.rules.Pairwise fun a b => c.rules.idxOf a ≤ c.rules.idxOf b) :
    (c.findings p).Pairwise (Finding.Precedes c.rules) := by
  rw [c.findings_eq_findingsFrom]
  exact findingsFrom_pairwise _ p [] ordered p.statements

theorem default_findings_eq :
    default.findings p = (strict.findings p).filter fun f => f.issue.rule ≠ .parameterKeys := by
  rw [strict.findings_eq_findingsFrom, default.findings_eq_findingsFrom]
  exact (filter_findingsFrom strict.rules p [] (fun rule => rule ≠ .parameterKeys) _).symm

theorem keyFindings_eq :
    keyFindings p = (strict.findings p).filter fun f => f.issue.rule = .parameterKeys := by
  rw [strict.findings_eq_findingsFrom,
    filter_findingsFrom strict.rules p [] (fun rule => rule = .parameterKeys)]
  exact (findingsFrom_parameterKeys p [] p.statements).symm

theorem strict_mild_iff :
    (∀ f ∈ strict.findings p, f.isError = false) ↔
      (∀ f ∈ default.findings p, f.isError = false) ∧
        ∀ s ∈ p.statements, ∀ q ∈ s.params, q.IsListed := by
  rw [← keyFindings_eq_nil_iff, default_findings_eq, keyFindings_eq, List.filter_eq_nil_iff]
  simp only [List.mem_filter, decide_eq_true_eq]
  constructor
  · intro mild
    refine ⟨fun f hf => mild f hf.1, fun f hf keys => ?_⟩
    have grave : f.issue.severity = .error := by
      rw [Issue.severity_eq_error_iff, keys]
      decide
    simpa [Finding.isError, grave] using mild f hf
  · rintro ⟨mild, none⟩ f hf
    exact mild f ⟨hf, none f hf⟩

/-- Strict checking refines the default: it finds no error in a program exactly if the default
checker finds none and every parameter has a value under a listed key. Its findings are the default
ones in their order, with those about keys among them, by statement and then by rule. No listed key
is one for the names of what is made, so a program that declares the making of files or folders is
always refused. -/
theorem strict_refines_default :
    ((∀ f ∈ strict.findings p, f.isError = false) ↔
      (∀ f ∈ default.findings p, f.isError = false) ∧
        ∀ s ∈ p.statements, ∀ q ∈ s.params, q.value ≠ "" ∧ q.key ∈ allowedKeys) ∧
    ((strict.findings p).filter fun f => f.issue.rule ≠ .parameterKeys) = default.findings p ∧
    ((strict.findings p).filter fun f => f.issue.rule = .parameterKeys) = keyFindings p ∧
    (strict.findings p).Pairwise (Finding.Precedes strict.rules) ∧
    ((∃ d, .instruction d ∈ p.statements ∧ (d.action = .createFile ∨ d.action = .createFolder)) →
      ∃ f, f.isError = true ∧ strict.check p = .error f) := by
  refine ⟨strict_mild_iff p, (default_findings_eq p).symm, (keyFindings_eq p).symm,
    strict.findings_pairwise p (by decide), ?_⟩
  rintro ⟨d, hd, creates⟩
  cases first : strict.firstError? p with
  | some f =>
    refine ⟨f, ((strict.firstError?_eq_some_iff p f).mp first).1, ?_⟩
    rw [check, first]
  | none =>
    obtain ⟨mild, listed⟩ := (strict_mild_iff p).mp ((strict.firstError?_eq_none_iff p).mp first)
    have accepted := p.accepted_of_firstError? ((default.firstError?_eq_none_iff p).mpr mild)
    have served := (actionIssues_eq_nil_iff d).mp (accepted.complete d hd)
    obtain ⟨q, hq, bad⟩ := exists_not_isListed served creates
    exact absurd (listed _ hd q hq) bad

end Checker
end SimpleFiles
