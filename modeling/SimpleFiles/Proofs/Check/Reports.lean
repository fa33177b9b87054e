import Mathlib.Data.List.Basic
import SimpleFiles.Check

/-! The reports of the rules. Each rule goes through a program by itself. All reports together,
sorted by statement, are what one walk through the program finds with all rules at once. -/
namespace SimpleFiles

/-! Lists that are sorted by a key. -/

section
variable {α : Type} (key : α → Nat) {l l' : List α}

theorem leKey_trans (a b c : α) (first : decide (key a ≤ key b) = true)
    (second : decide (key b ≤ key c) = true) : decide (key a ≤ key c) = true :=
  decide_eq_true (Nat.le_trans (of_decide_eq_true first) (of_decide_eq_true second))

theorem leKey_total (a b : α) : (decide (key a ≤ key b) || decide (key b ≤ key a)) = true := by
  simpa using Nat.le_total (key a) (key b)

theorem filter_mergeSort (l : List α) (i : Nat) :
    (l.mergeSort fun a b => key a ≤ key b).filter (fun a => key a = i) =
      l.filter fun a => key a = i := by
  have ordered : (l.filter fun a => key a = i).Pairwise fun a b => (key a ≤ key b : Bool) := by
    refine List.pairwise_of_forall_mem_list fun a ha b hb => ?_
    have left := of_decide_eq_true (List.mem_filter.mp ha).2
    have right := of_decide_eq_true (List.mem_filter.mp hb).2
    exact decide_eq_true (Nat.le_of_eq (left.trans right.symm))
  have kept :=
    List.sublist_mergeSort (leKey_trans key) (leKey_total key) ordered List.filter_sublist
  have among := kept.filter fun a => key a = i
  rw [List.filter_filter] at among
  simp only [Bool.and_self] at among
  exact (among.eq_of_length ((List.mergeSort_perm l _).filter _).length_eq.symm).symm

theorem sorted_mergeSort (l : List α) :
    (l.mergeSort fun a b => key a ≤ key b).Pairwise fun a b => key a ≤ key b := by
  have sorted : (l.mergeSort fun a b => key a ≤ key b).Pairwise
      fun a b => (key a ≤ key b : Bool) :=
    List.pairwise_mergeSort (leKey_trans key) (leKey_total key) l
  exact sorted.imp of_decide_eq_true

theorem mem_iff_of_filter
    (same : ∀ i, l.filter (fun a => key a = i) = l'.filter fun a => key a = i) (a : α) :
    a ∈ l ↔ a ∈ l' := by
  have member : a ∈ l.filter (fun b => key b = key a) ↔ a ∈ l'.filter fun b => key b = key a := by
    rw [same]
  simpa using member

theorem eq_of_sorted_of_filter (sorted : l.Pairwise fun a b => key a ≤ key b)
    (sorted' : l'.Pairwise fun a b => key a ≤ key b)
    (same : ∀ i, l.filter (fun a => key a = i) = l'.filter fun a => key a = i) : l = l' := by
  induction l generalizing l' with
  | nil =>
    refine (List.eq_nil_iff_forall_not_mem.mpr fun a member => ?_).symm
    cases (mem_iff_of_filter key same a).mpr member
  | cons a rest ih =>
    cases l' with
    | nil => cases (mem_iff_of_filter key same a).mp (.head _)
    | cons b rest' =>
      obtain ⟨first, later⟩ := List.pairwise_cons.mp sorted
      obtain ⟨first', later'⟩ := List.pairwise_cons.mp sorted'
      have le : key a ≤ key b := by
        rcases List.mem_cons.mp ((mem_iff_of_filter key same b).mpr (.head _)) with rfl | inside
        · exact Nat.le_refl _
        · exact first b inside
      have ge : key b ≤ key a := by
        rcases List.mem_cons.mp ((mem_iff_of_filter key same a).mp (.head _)) with rfl | inside
        · exact Nat.le_refl _
        · exact first' a inside
      have heads := same (key a)
      rw [List.filter_cons_of_pos (by simp),
        List.filter_cons_of_pos (by simp [Nat.le_antisymm ge le])] at heads
      obtain ⟨rfl, -⟩ := List.cons.inj heads
      rw [ih later later']
      intro i
      have both := same i
      by_cases here : key a = i
      · rw [List.filter_cons_of_pos (by simpa using here),
          List.filter_cons_of_pos (by simpa using here)] at both
        exact (List.cons.inj both).2
      · rwa [List.filter_cons_of_neg (by simpa using here),
          List.filter_cons_of_neg (by simpa using here)] at both

end

namespace Check

/-- What all rules find in one walk through the statements that follow others. -/
def findingsFrom (rules : List Rule) (program : Program) (before : List Statement) :
    List Statement → List Finding
  | [] => []
  | s :: rest =>
    rules.flatMap (·.found program before s) ++ findingsFrom rules program (before ++ [s]) rest

theorem Rule.statement_of_mem_found {rule : Rule} {program : Program} {before : List Statement}
    {s : Statement} {f : Finding} (h : f ∈ rule.found program before s) :
    f.statement = before.length := by
  obtain ⟨_, -, rfl⟩ := List.mem_map.mp h
  rfl

section
variable (rules : List Rule) (program : Program) (before : List Statement)

theorem findingsFrom_cons (s : Statement) (rest : List Statement) :
    findingsFrom rules program before (s :: rest) =
      rules.flatMap (·.found program before s)
        ++ findingsFrom rules program (before ++ [s]) rest :=
  rfl

theorem findingsFrom_singleton (rule : Rule) (statements : List Statement) :
    findingsFrom [rule] program before statements = rule.reportFrom program before statements := by
  induction statements generalizing before with
  | nil => rfl
  | cons s rest ih => rw [findingsFrom_cons, ih, List.flatMap_singleton, Rule.reportFrom]

theorem le_statement_of_mem_findingsFrom (statements : List Statement) (f : Finding)
    (h : f ∈ findingsFrom rules program before statements) : before.length ≤ f.statement := by
  induction statements generalizing before with
  | nil => cases h
  | cons s rest ih =>
    rcases List.mem_append.mp h with here | later
    · obtain ⟨rule, -, found⟩ := List.mem_flatMap.mp here
      exact Nat.le_of_eq (Rule.statement_of_mem_found found).symm
    · have after := ih (before ++ [s]) later
      rw [List.length_append] at after
      exact Nat.le_of_add_right_le after

theorem lt_statement_of_mem_findingsFrom_concat (s : Statement) (rest : List Statement) (f : Finding)
    (h : f ∈ findingsFrom rules program (before ++ [s]) rest) : before.length < f.statement := by
  have after := le_statement_of_mem_findingsFrom _ _ _ _ f h
  rwa [List.length_append, List.length_singleton] at after

theorem findingsFrom_sorted (statements : List Statement) :
    (findingsFrom rules program before statements).Pairwise
      fun f g => f.statement ≤ g.statement := by
  induction statements generalizing before with
  | nil => exact .nil
  | cons s rest ih =>
    have own : ∀ f ∈ rules.flatMap (·.found program before s), f.statement = before.length := by
      intro f hf
      obtain ⟨rule, -, found⟩ := List.mem_flatMap.mp hf
      exact Rule.statement_of_mem_found found
    rw [findingsFrom_cons, List.pairwise_append]
    refine ⟨List.pairwise_of_forall_mem_list fun f hf g hg => ?_, ih _, fun f hf g hg => ?_⟩
    · exact Nat.le_of_eq ((own f hf).trans (own g hg).symm)
    · rw [own f hf]
      exact Nat.le_of_lt (lt_statement_of_mem_findingsFrom_concat _ _ _ _ _ g hg)

theorem filter_statement_findingsFrom (i : Nat) (statements : List Statement) :
    (findingsFrom rules program before statements).filter (·.statement = i) =
      rules.flatMap fun rule =>
        (rule.reportFrom program before statements).filter (·.statement = i) := by
  induction statements generalizing before with
  | nil => simp [findingsFrom, Rule.reportFrom]
  | cons s rest ih =>
    simp only [findingsFrom_cons, Rule.reportFrom, List.filter_append, List.filter_flatMap]
    by_cases here : before.length = i
    · have later : ∀ others,
          (findingsFrom others program (before ++ [s]) rest).filter (·.statement = i) = [] := by
        intro others
        refine List.filter_eq_nil_iff.mpr fun f hf => ?_
        have after := lt_statement_of_mem_findingsFrom_concat _ _ _ _ _ f hf
        simp only [decide_eq_true_eq]
        omega
      have none : ∀ rule : Rule,
          (rule.reportFrom program (before ++ [s]) rest).filter (·.statement = i) = [] := by
        intro rule
        rw [← findingsFrom_singleton, later]
      simp only [later, none, List.append_nil]
    · have none : ∀ rule : Rule, (rule.found program before s).filter (·.statement = i) = [] :=
        fun rule => List.filter_eq_nil_iff.mpr fun f hf => by
          simp [Rule.statement_of_mem_found hf, here]
      simp [none, ih]

end

end Check

theorem Checker.findings_eq_findingsFrom (c : Checker) (p : Program) :
    c.findings p = Check.findingsFrom c.rules p [] p.statements := by
  refine eq_of_sorted_of_filter Check.Finding.statement (sorted_mergeSort _ _)
    (Check.findingsFrom_sorted ..) fun i => ?_
  rw [findings, filter_mergeSort, List.filter_flatMap, Check.filter_statement_findingsFrom]
  rfl

end SimpleFiles
