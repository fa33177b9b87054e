import Mathlib.Data.List.Nodup
import SimpleFiles.Proofs.Check.Strictness

/-! The order of findings. Each rule reports on a program by itself. The findings are all these
reports, sorted by statement, where those of one statement stay in their order; the first error is
the least one in that order, whatever warnings come before it. -/
namespace SimpleFiles

namespace Check

theorem Finding.Precedes.statement_le {rules : List Rule} {f g : Finding}
    (h : f.Precedes rules g) : f.statement ≤ g.statement := by
  rcases h with before | ⟨same, -⟩
  · exact Nat.le_of_lt before
  · exact Nat.le_of_eq same

end Check

open Check

namespace Checker

variable (isStrict : Bool) (c : Checker) (p : Program)

/-- An error that comes first in the report of its rule, and before which no rule has one. -/
structure IsLeastError (f : Finding) : Prop where
  registered : f.issue.rule ∈ c.rules
  first : (f.issue.rule.report p).find? Finding.isError = some f
  least : ∀ rule ∈ c.rules, ∀ g ∈ rule.report p, g.isError = true → f.Precedes c.rules g

theorem ofStrict_ordered :
    (ofStrict isStrict).rules.Pairwise fun a b =>
      (ofStrict isStrict).rules.idxOf a ≤ (ofStrict isStrict).rules.idxOf b := by
  cases isStrict <;> decide

theorem ofStrict_nodup : (ofStrict isStrict).rules.Nodup := by
  cases isStrict <;> decide

theorem findings_perm :
    (c.findings p).Perm (c.rules.flatMap (·.report p)) :=
  List.mergeSort_perm _ _

theorem mem_findings_iff_report (f : Finding) :
    f ∈ c.findings p ↔ ∃ rule ∈ c.rules, f ∈ rule.report p := by
  rw [(c.findings_perm p).mem_iff, List.mem_flatMap]

theorem filter_rule_findings {rule : Rule} (registered : rule ∈ (ofStrict isStrict).rules) :
    (((ofStrict isStrict).findings p).filter fun f => f.issue.rule = rule) = rule.report p := by
  have alone : (ofStrict isStrict).rules.filter (fun other => other = rule) = [rule] := by
    rw [List.filter_eq, List.count_eq_one_of_mem (ofStrict_nodup isStrict) registered,
      List.replicate_one]
  rw [findings_eq_findingsFrom, filter_findingsFrom _ p [] fun other => other = rule, alone,
    findingsFrom_singleton, Rule.report]

theorem rule_of_mem_report {rule : Rule} {f : Finding} (h : f ∈ rule.report p) :
    f.issue.rule = rule := by
  rw [Rule.report, ← findingsFrom_singleton] at h
  obtain ⟨early, s, rest, -, -, other, alone, found⟩ := (mem_findingsFrom_iff _ _ _ _ f).mp h
  rw [← List.mem_singleton.mp alone]
  exact other.rule_of_mem_issues _ _ _ _ _ found

theorem isLeastError_of_first {f : Finding} (h : (ofStrict isStrict).firstError? p = some f) :
    (ofStrict isStrict).IsLeastError p f := by
  obtain ⟨severe, early, late, split, mild⟩ := (firstError?_eq_some_iff _ p f).mp h
  have inside : f ∈ (ofStrict isStrict).findings p := by simp [split]
  obtain ⟨rule, registered, reported⟩ := (mem_findings_iff_report _ p f).mp inside
  have own := rule_of_mem_report p reported
  refine ⟨own ▸ registered, ?_, ?_⟩
  · rw [own, ← filter_rule_findings isStrict p registered, split, List.filter_append,
      List.filter_cons_of_pos (by simpa using own), List.find?_eq_some_iff_append]
    refine ⟨severe, _, _, rfl, fun g hg => ?_⟩
    rw [mild g (List.mem_of_mem_filter hg)]
    rfl
  · intro other registered' g reported' grave
    have listed := (mem_findings_iff_report _ p g).mpr ⟨other, registered', reported'⟩
    have ordered := findings_pairwise p _ (ofStrict_ordered isStrict)
    rw [split] at ordered
    rw [split] at listed
    rcases List.mem_append.mp listed with before | rest
    · rw [mild g before] at grave
      cases grave
    · rcases List.mem_cons.mp rest with rfl | after
      · exact .inr ⟨rfl, Nat.le_refl _⟩
      · exact (List.pairwise_cons.mp (List.pairwise_append.mp ordered).2.1).1 g after

theorem IsLeastError.unique {c : Checker} {f g : Finding} (hf : c.IsLeastError p f)
    (hg : c.IsLeastError p g) : f = g := by
  have before := hf.least _ hg.registered g (List.mem_of_find?_eq_some hg.first)
    (List.find?_some hg.first)
  have after := hg.least _ hf.registered f (List.mem_of_find?_eq_some hf.first)
    (List.find?_some hf.first)
  have same : f.issue.rule = g.issue.rule := by
    refine (List.idxOf_inj hf.registered).mp ?_
    rcases before with early | ⟨level, below⟩
    · have late := after.statement_le
      omega
    · rcases after with early | ⟨-, above⟩
      · omega
      · exact Nat.le_antisymm below above
  have first := hf.first
  rw [same, hg.first] at first
  exact (Option.some.inj first).symm

theorem firstError?_iff_isLeastError (f : Finding) :
    (ofStrict isStrict).firstError? p = some f ↔ (ofStrict isStrict).IsLeastError p f := by
  refine ⟨isLeastError_of_first isStrict p, fun least => ?_⟩
  have inside := (mem_findings_iff_report _ p f).mpr
    ⟨_, least.registered, List.mem_of_find?_eq_some least.first⟩
  cases found : (ofStrict isStrict).firstError? p with
  | none =>
    have mild := (firstError?_eq_none_iff _ p).mp found f inside
    rw [List.find?_some least.first] at mild
    cases mild
  | some g => rw [(isLeastError_of_first isStrict p found).unique p least]

theorem firstError?_eq_none_iff_reports :
    (ofStrict isStrict).firstError? p = none ↔
      ∀ rule ∈ (ofStrict isStrict).rules, ∀ f ∈ rule.report p, f.isError = false := by
  rw [firstError?_eq_none_iff]
  simp only [mem_findings_iff_report]
  grind

theorem check_eq_error_iff (f : Finding) :
    c.check p = .error f ↔ c.firstError? p = some f := by
  rw [check]
  cases c.firstError? p <;> simp

theorem check_eq_ok_iff (all : List Finding) :
    c.check p = .ok all ↔ all = c.findings p ∧ c.firstError? p = none := by
  rw [check]
  cases c.firstError? p <;> simp [eq_comm]

theorem hasErrors_iff : p.hasErrors = true ↔ ∃ f, default.firstError? p = some f := by
  rw [Program.hasErrors, firstError?, ← Option.isSome_iff_exists, List.find?_isSome,
    List.any_eq_true]

/-- The findings of either checker are all that its rules report, by statement, and those of one
statement by the place of their rule in the checker and as that rule reports them. The error that a
check gives is the least in that order, whatever warnings come before it. There is none exactly if
no rule reports an error, and then a check gives all findings. -/
theorem findings_in_order (isStrict : Bool) (p : Program) :
    let c := ofStrict isStrict
    (c.findings p).Perm (c.rules.flatMap (·.report p)) ∧
    (c.findings p).Pairwise (Finding.Precedes c.rules) ∧
    (∀ rule ∈ c.rules, ((c.findings p).filter fun f => f.issue.rule = rule) = rule.report p) ∧
    (∀ f, c.firstError? p = some f ↔ c.IsLeastError p f) ∧
    (c.firstError? p = none ↔ ∀ rule ∈ c.rules, ∀ f ∈ rule.report p, f.isError = false) ∧
    (∀ f, c.check p = .error f ↔ c.firstError? p = some f) ∧
    (∀ all, c.check p = .ok all ↔ all = c.findings p ∧ c.firstError? p = none) ∧
    (p.hasErrors = true ↔ ∃ f, default.firstError? p = some f) :=
  ⟨findings_perm _ p, findings_pairwise p _ (ofStrict_ordered isStrict),
    fun _ => filter_rule_findings isStrict p, firstError?_iff_isLeastError isStrict p,
    firstError?_eq_none_iff_reports isStrict p, check_eq_error_iff _ p, check_eq_ok_iff _ p,
    hasErrors_iff p⟩

end Checker
end SimpleFiles
