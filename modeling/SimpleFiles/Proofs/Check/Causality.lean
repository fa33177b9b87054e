import SimpleFiles.Proofs.Check.Ordering
import SimpleFiles.Proofs.Evaluation.Composition

/-! Checking a program that another one follows. What comes later takes no error back and adds none
to what comes before; it settles the warnings about the instructions that it executes, and nothing
else. -/
namespace SimpleFiles

def Program.Executes (p : Program) (name : String) : Prop :=
  ∃ condition span, Statement.execute name condition span ∈ p.statements

namespace Check

/-- The warning that an instruction is not executed, where a program that follows executes it. -/
def Finding.isSettledBy (q : Program) (f : Finding) : Bool :=
  match f.issue with
  | .neverExecuted name => name ∈ executedNames q.statements
  | _ => false

theorem mem_executedNames_iff (p : Program) (name : String) :
    name ∈ executedNames p.statements ↔ p.Executes name := by
  simp only [executedNames, List.mem_filterMap, Program.Executes]
  constructor
  · rintro ⟨s, hs, named⟩
    cases s with
    | execute other condition span => exact ⟨condition, span, Option.some.inj named ▸ hs⟩
    | instruction declared | condition declared | assign key value span => cases named
  · rintro ⟨condition, span, hs⟩
    exact ⟨_, hs, rfl⟩

theorem executedNames_append (first rest : List Statement) :
    executedNames (first ++ rest) = executedNames first ++ executedNames rest :=
  List.filterMap_append

namespace Finding

variable {q : Program} {f : Finding}

theorem isSettledBy_iff :
    f.isSettledBy q = true ↔ ∃ name, f.issue = .neverExecuted name ∧ q.Executes name := by
  unfold isSettledBy
  split
  · rename_i name issue
    simp [issue, mem_executedNames_iff]
  · rename_i other
    simpa using fun name issue => absurd issue (other name)

theorem isSettledBy_eq_false (h : f.issue.rule ≠ .unusedInstruction) :
    f.isSettledBy q = false := by
  rw [← Bool.not_eq_true, isSettledBy_iff]
  rintro ⟨name, issue, -⟩
  exact h (by rw [issue]; rfl)

theorem isSettledBy_eq_false_of_isError (h : f.isError = true) : f.isSettledBy q = false :=
  isSettledBy_eq_false ((Issue.severity_eq_error_iff _).mp (by simpa [isError] using h))

end Finding

section
variable (p q : Program)

/-- A rule finds in a statement what it finds there without the program that follows, as far as
that does not settle it. -/
theorem Rule.found_append (rule : Rule) (before : List Statement) (s : Statement) :
    rule.found (p ++ q) before s = (rule.found p before s).filter fun f => !f.isSettledBy q := by
  by_cases usage : rule = .unusedInstruction
  · subst usage
    cases s with
    | condition declared | assign key value span | execute name condition span => rfl
    | instruction declared =>
      by_cases here : declared.name ∈ executedNames p.statements
      · simp [found, issues, usageIssues, executedNames_append, here]
      · by_cases later : declared.name ∈ executedNames q.statements
        · simp [found, issues, usageIssues, executedNames_append, here, later, Finding.isSettledBy]
        · simp [found, issues, usageIssues, executedNames_append, here, later, Finding.isSettledBy]
  · have same : rule.issues (p ++ q) before s = rule.issues p before s := by
      cases rule with
      | unusedInstruction => exact absurd rfl usage
      | duplicateDeclaration | undefinedReference | instructionParameters | parameterKeys => rfl
    have kept : (rule.found p before s).filter (fun f => !f.isSettledBy q) =
        rule.found p before s := by
      refine List.filter_eq_self.mpr fun f hf => ?_
      rw [Finding.isSettledBy_eq_false ((Rule.of_mem_found hf).2.symm ▸ usage), Bool.not_false]
    rw [kept, found, found, same]

variable (rules : List Rule)

theorem findingsFrom_program_append (before statements : List Statement) :
    findingsFrom rules (p ++ q) before statements =
      (findingsFrom rules p before statements).filter fun f => !f.isSettledBy q := by
  induction statements generalizing before with
  | nil => rfl
  | cons s rest ih =>
    rw [findingsFrom_cons, findingsFrom_cons, List.filter_append, List.filter_flatMap, ih]
    simp only [Rule.found_append]

theorem findingsFrom_append (program : Program) (before first rest : List Statement) :
    findingsFrom rules program before (first ++ rest) =
      findingsFrom rules program before first
        ++ findingsFrom rules program (before ++ first) rest := by
  induction first generalizing before with
  | nil => simp [findingsFrom]
  | cons s first ih =>
    rw [List.cons_append, findingsFrom_cons, findingsFrom_cons, ih, List.append_assoc,
      List.append_assoc, List.singleton_append]

end

end Check

open Check

namespace Checker

variable (c : Checker) (p q : Program)

theorem statement_lt_of_mem_findings {f : Finding} (h : f ∈ c.findings p) :
    f.statement < p.statements.length := by
  obtain ⟨early, s, rest, split, at_, -⟩ := (c.mem_findings_iff p f).mp h
  rw [at_, split, List.length_append, List.length_cons]
  omega

/-- What is found in the statements of the first of two programs is what is found in that program
alone, as far as the second one does not settle it. -/
theorem filter_findings_append :
    (c.findings (p ++ q)).filter (fun f => f.statement < p.statements.length) =
      (c.findings p).filter fun f => !f.isSettledBy q := by
  have front : ((c.findings p).filter fun f => !f.isSettledBy q).filter
      (fun f => f.statement < p.statements.length) =
        (c.findings p).filter fun f => !f.isSettledBy q :=
    List.filter_eq_self.mpr fun f hf =>
      decide_eq_true (c.statement_lt_of_mem_findings p (List.mem_of_mem_filter hf))
  have back : (findingsFrom c.rules (p ++ q) p.statements q.statements).filter
      (fun f => f.statement < p.statements.length) = [] := by
    refine List.filter_eq_nil_iff.mpr fun f hf => ?_
    have after := le_statement_of_mem_findingsFrom _ _ _ _ f hf
    simpa using after
  rw [findings_eq_findingsFrom, Program.statements_append, findingsFrom_append, List.nil_append,
    findingsFrom_program_append, List.filter_append, ← findings_eq_findingsFrom, front, back,
    List.append_nil]

/-- What comes later takes no error back and adds none: the errors in the statements of the first of
two programs are those of that program alone, in their order. All that is found in these statements
is what is found in that program alone, in its order, as far as the second one does not settle it;
only warnings about unused instructions can go, and each goes exactly if the second program executes
an instruction of that name. -/
theorem errors_of_append (p q : Program) (isStrict : Bool) :
    let c := ofStrict isStrict
    ((c.findings (p ++ q)).filter fun f => f.isError && f.statement < p.statements.length) =
      (c.findings p).filter Finding.isError ∧
    ((c.findings (p ++ q)).filter fun f => f.statement < p.statements.length) =
      (c.findings p).filter (fun f => !f.isSettledBy q) ∧
    ∀ f ∈ c.findings p, f ∉ c.findings (p ++ q) ↔
      ∃ name, f.issue = .neverExecuted name ∧ q.Executes name := by
  intro c
  have kept := c.filter_findings_append p q
  refine ⟨?_, kept, ?_⟩
  · rw [← List.filter_filter, kept, List.filter_filter]
    refine List.filter_congr fun f _ => ?_
    cases grave : f.isError with
    | false => rfl
    | true => rw [Finding.isSettledBy_eq_false_of_isError grave, Bool.not_false, Bool.and_self]
  · intro f found
    have inside := c.statement_lt_of_mem_findings p found
    have member : f ∈ (c.findings (p ++ q)).filter (fun f => f.statement < p.statements.length) ↔
        f ∈ (c.findings p).filter fun f => !f.isSettledBy q := by
      rw [kept]
    have stays : f ∈ c.findings (p ++ q) ↔ f.isSettledBy q = false := by
      simpa [inside, found] using member
    rw [stays, Bool.not_eq_false, Finding.isSettledBy_iff]

end Checker
end SimpleFiles
