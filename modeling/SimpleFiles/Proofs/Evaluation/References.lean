import Mathlib.Data.List.Induction
import SimpleFiles.Proofs.Check.Soundness
import SimpleFiles.Proofs.Evaluation.Reports

/-! The declarations that an execution meets. Evaluating statements leaves the latest declaration
of each name in the tables, so an execution misses a declaration exactly if the checker finds that
there is none before it. -/
namespace SimpleFiles

open Check

/-- The last declaration of its name among statements. -/
def IsLatest (declares : α → Statement) (nameOf : α → String) (statements : List Statement)
    (d : α) : Prop :=
  ∃ early late, statements = early ++ declares d :: late ∧
    ∀ other, declares other ∈ late → nameOf other ≠ nameOf d

section
variable {declares : α → Statement} {nameOf : α → String}

theorem isLatest_concat (before : List Statement) (stmt : Statement) (d : α) :
    IsLatest declares nameOf (before ++ [stmt]) d ↔
      stmt = declares d ∨
        IsLatest declares nameOf before d ∧
          ∀ other, stmt = declares other → nameOf other ≠ nameOf d := by
  constructor
  · rintro ⟨early, late, split, others⟩
    rcases List.eq_nil_or_concat late with rfl | ⟨late, last, rfl⟩
    · exact .inl (List.cons.inj (List.append_inj' split rfl).2).1
    · rw [List.concat_eq_append] at split others
      rw [← List.cons_append, ← List.append_assoc] at split
      obtain ⟨same, ends⟩ := List.append_inj' split rfl
      obtain rfl := (List.cons.inj ends).1
      refine .inr ⟨⟨early, late, same, fun other known => ?_⟩, ?_⟩
      · exact others other (List.mem_append_left _ known)
      · rintro other rfl
        exact others other (by simp)
  · rintro (rfl | ⟨⟨early, late, rfl, others⟩, last⟩)
    · exact ⟨before, [], rfl, nofun⟩
    · refine ⟨early, late ++ [stmt], by simp, fun other known => ?_⟩
      rcases List.mem_append.mp known with earlier | here
      · exact others other earlier
      · exact last other (List.mem_singleton.mp here).symm

variable (nameOf) in
theorem exists_isLatest (statements : List Statement) (d : α) (h : declares d ∈ statements) :
    ∃ latest, nameOf latest = nameOf d ∧ IsLatest declares nameOf statements latest := by
  induction statements using List.reverseRecOn with
  | nil => cases h
  | append_singleton before stmt ih =>
    by_cases again : ∃ other, stmt = declares other ∧ nameOf other = nameOf d
    · obtain ⟨other, rfl, same⟩ := again
      exact ⟨other, same, (isLatest_concat before _ other).mpr (.inl rfl)⟩
    · rcases List.mem_append.mp h with earlier | here
      · obtain ⟨latest, same, found⟩ := ih earlier
        refine ⟨latest, same, (isLatest_concat before _ latest).mpr (.inr ⟨found, ?_⟩)⟩
        intro other declared equal
        exact again ⟨other, declared, equal.trans same⟩
      · exact absurd ⟨d, (List.mem_singleton.mp here).symm, rfl⟩ again

def NameTable.Tracks (table : NameTable α) (declares : α → Statement) (nameOf : α → String)
    (before : List Statement) : Prop :=
  ∀ name d, table.find? name = some d ↔ nameOf d = name ∧ IsLatest declares nameOf before d

namespace NameTable.Tracks

variable {table : NameTable α} {before : List Statement}

theorem empty : NameTable.empty.Tracks declares nameOf [] := by
  intro name d
  constructor
  · nofun
  · rintro ⟨-, early, late, split, -⟩
    simp at split

theorem insert (h : table.Tracks declares nameOf before)
    (injective : ∀ a b, declares a = declares b → a = b) (new : α) :
    (table.insert (nameOf new) new).Tracks declares nameOf (before ++ [declares new]) := by
  intro name d
  rw [find?_insert, isLatest_concat]
  by_cases named : name = nameOf new
  · rw [if_pos named, named, Option.some.injEq]
    constructor
    · rintro rfl
      exact ⟨rfl, .inl rfl⟩
    · rintro ⟨same, declared | ⟨-, others⟩⟩
      · exact injective _ _ declared
      · exact absurd same.symm (others new rfl)
  · rw [if_neg named, h name d]
    constructor
    · rintro ⟨rfl, latest⟩
      refine ⟨rfl, .inr ⟨latest, fun other declared same => named ?_⟩⟩
      rw [← same, injective _ _ declared]
    · rintro ⟨rfl, declared | ⟨latest, -⟩⟩
      · exact absurd (congrArg nameOf (injective _ _ declared).symm) named
      · exact ⟨rfl, latest⟩

theorem concat (h : table.Tracks declares nameOf before) (stmt : Statement)
    (other : ∀ d, stmt ≠ declares d) : table.Tracks declares nameOf (before ++ [stmt]) := by
  intro name d
  rw [h name d, isLatest_concat]
  constructor
  · rintro ⟨same, latest⟩
    exact ⟨same, .inr ⟨latest, fun new declared => absurd declared (other new)⟩⟩
  · rintro ⟨same, declared | ⟨latest, -⟩⟩
    · exact absurd declared (other d)
    · exact ⟨same, latest⟩

theorem isSome_find?_iff (h : table.Tracks declares nameOf before) (name : String) :
    (table.find? name).isSome = true ↔ ∃ d, declares d ∈ before ∧ nameOf d = name := by
  rw [Option.isSome_iff_exists]
  constructor
  · rintro ⟨d, found⟩
    obtain ⟨same, early, late, rfl, -⟩ := (h name d).mp found
    exact ⟨d, by simp, same⟩
  · rintro ⟨d, declared, rfl⟩
    obtain ⟨latest, same, found⟩ := exists_isLatest nameOf before d declared
    exact ⟨latest, (h _ latest).mpr ⟨same, found⟩⟩

end NameTable.Tracks
end

structure Declarations.Track (tables : Declarations) (before : List Statement) : Prop where
  instructions : tables.instructions.Tracks .instruction Instruction.name before
  conditions : tables.conditions.Tracks .condition Condition.name before

theorem Declarations.Track.declare {tables : Declarations} {before : List Statement}
    (h : tables.Track before) (stmt : Statement) :
    (tables.declare stmt).Track (before ++ [stmt]) := by
  cases stmt with
  | instruction d =>
    exact ⟨h.instructions.insert (fun _ _ => Statement.instruction.inj) d,
      h.conditions.concat _ nofun⟩
  | condition d =>
    exact ⟨h.instructions.concat _ nofun,
      h.conditions.insert (fun _ _ => Statement.condition.inj) d⟩
  | assign key value span => exact ⟨h.instructions.concat _ nofun, h.conditions.concat _ nofun⟩
  | execute name under span => exact ⟨h.instructions.concat _ nofun, h.conditions.concat _ nofun⟩

/-- A name that is executed or applied was not declared. -/
def Outcome.IsUndefined (outcome : Outcome) : Prop :=
  ∃ name, outcome = .failed (.undefinedInstruction name) ∨
    outcome = .failed (.undefinedCondition name)

inductive State.Performs (s : State) (dir : Path) (d : Instruction) (c : Option Condition) :
    State → Outcome → Prop
  | skips {word : String} (action : d.action = .unsupported word) :
      Performs s dir d c s (.skipped word)
  | completes {files : FileSystem} {memory : Memory} (action : ∀ word, d.action ≠ .unsupported word)
      (ran : Execution.run s.files dir s.memory d c = (files, .ok memory)) :
      Performs s dir d c { s with files, memory } .completed
  | fails {files : FileSystem} {e : ExecutionError} (action : ∀ word, d.action ≠ .unsupported word)
      (ran : Execution.run s.files dir s.memory d c = (files, .error e)) :
      Performs s dir d c { s with files } (.failed (.execution e))

namespace State

theorem Performs.not_isUndefined {s s' : State} {dir : Path} {d : Instruction}
    {c : Option Condition} {outcome : Outcome} (h : s.Performs dir d c s' outcome) :
    ¬outcome.IsUndefined := by
  rintro ⟨name, missing | missing⟩ <;> cases h <;> cases missing

theorem performs_of_execute (s : State) (dir : Path) (name : String) (under : Option String)
    (d : Instruction) (found : s.declared.instructions.find? name = some d)
    (known : (under.bind s.declared.conditions.find?).isSome = under.isSome) :
    s.Performs dir d (under.bind s.declared.conditions.find?) (s.execute dir name under).1
      (s.execute dir name under).2 := by
  rw [execute, found]
  dsimp only
  split
  · rename_i missing
    rw [missing] at known
    cases known
  · split
    · rename_i action
      exact .skips action
    · rename_i action
      split
      · rename_i ran
        exact .completes action ran
      · rename_i ran
        exact .fails action ran

theorem execute_isUndefined_iff (s : State) (dir : Path) (name : String) (under : Option String) :
    (s.execute dir name under).2.IsUndefined ↔
      ¬((s.declared.instructions.find? name).isSome = true ∧
        (under.bind s.declared.conditions.find?).isSome = under.isSome) := by
  constructor
  · rintro undefined ⟨instruction, condition⟩
    obtain ⟨d, found⟩ := Option.isSome_iff_exists.mp instruction
    exact (s.performs_of_execute dir name under d found condition).not_isUndefined undefined
  · intro missing
    cases found : s.declared.instructions.find? name with
    | none => exact ⟨name, .inl (by rw [execute, found])⟩
    | some d =>
      cases under with
      | none => simp [found] at missing
      | some other =>
        have unknown : s.declared.conditions.find? other = none := by simpa [found] using missing
        exact ⟨other, .inr (by rw [execute, found, Option.bind_some, unknown])⟩

/-- Where the tables hold what is declared before, an execution misses a declaration exactly if
the rule for references finds that. -/
theorem execute_isUndefined_iff_issues (s : State) (dir : Path) (name : String)
    (under : Option String) (span : Span) (before : List Statement)
    (track : s.declared.Track before) :
    (s.execute dir name under).2.IsUndefined ↔
      referenceIssues before (.execute name under span) ≠ [] := by
  have instruction := track.instructions.isSome_find?_iff name
  rw [← mem_instructionNames_iff] at instruction
  have condition other := track.conditions.isSome_find?_iff other
  simp only [← mem_conditionNames_iff] at condition
  rw [execute_isUndefined_iff, instruction]
  cases under with
  | none => simp [referenceIssues]
  | some other => simp [referenceIssues, condition]

theorem exists_performs (s : State) (dir : Path) (name : String) (under : Option String)
    (before : List Statement) (track : s.declared.Track before)
    (known : ¬(s.execute dir name under).2.IsUndefined) :
    ∃ d c, IsLatest .instruction Instruction.name before d ∧ d.name = name ∧
      (∀ k, c = some k → IsLatest .condition Condition.name before k) ∧
      under = c.map Condition.name ∧
      s.Performs dir d c (s.execute dir name under).1 (s.execute dir name under).2 := by
  rw [execute_isUndefined_iff, not_not] at known
  obtain ⟨instruction, condition⟩ := known
  obtain ⟨d, found⟩ := Option.isSome_iff_exists.mp instruction
  obtain ⟨named, latest⟩ := (track.instructions name d).mp found
  refine ⟨d, _, latest, named, ?_, ?_, s.performs_of_execute dir name under d found condition⟩
  · intro k applied
    obtain ⟨other, -, held⟩ := Option.bind_eq_some_iff.mp applied
    exact ((track.conditions other k).mp held).2
  · cases under with
    | none => rfl
    | some other =>
      obtain ⟨k, held⟩ := Option.isSome_iff_exists.mp condition
      rw [held, Option.map_some, ((track.conditions other k).mp held).1]

end State

namespace Evaluation

variable {dir : Path}

theorem track_of_runFrom (index : Nat) (s : State) (before statements : List Statement)
    (track : s.declared.Track before) (passed : (runFrom dir index s statements).abort = none) :
    (runFrom dir index s statements).state.declared.Track (before ++ statements) := by
  induction statements generalizing index s before with
  | nil => rwa [List.append_nil]
  | cons stmt rest ih =>
    rw [runFrom] at passed ⊢
    cases stepped : s.step dir stmt with
    | error e =>
      rw [stepped] at passed
      cases passed
    | ok next =>
      obtain ⟨s', outcome⟩ := next
      rw [stepped] at passed
      have further : s'.declared.Track (before ++ [stmt]) := by
        rw [s.declared_of_step s' dir stmt outcome stepped]
        exact track.declare stmt
      simpa using ih (index + 1) s' (before ++ [stmt]) further passed

theorem track_of_run (memory : Memory) (files : FileSystem) (p : Program)
    (passed : (run dir { memory, files } p).abort = none) :
    (run dir { memory, files } p).state.declared.Track p.statements :=
  track_of_runFrom 0 _ [] p.statements ⟨.empty, .empty⟩ passed

theorem exists_finding_iff (p : Program) (i : Nat) (stmt : Statement)
    (h : p.statements[i]? = some stmt) :
    (∃ f ∈ (Checker.mk [.undefinedReference]).findings p, f.statement = i) ↔
      referenceIssues (p.take i).statements stmt ≠ [] := by
  obtain ⟨length, split, -⟩ := p.take_of_getElem? i stmt h
  constructor
  · rintro ⟨f, found, rfl⟩ none
    obtain ⟨before, other, rest, split', number, rule, only, issue⟩ :=
      (Checker.mem_findings_iff _ p f).mp found
    obtain rfl := List.mem_singleton.mp only
    obtain ⟨rfl, same⟩ := List.append_inj (split.symm.trans split') (length.trans number)
    obtain rfl := (List.cons.inj same).1
    rw [Rule.issues, none] at issue
    cases issue
  · intro some
    obtain ⟨⟨span, issue⟩, found⟩ := List.exists_mem_of_ne_nil _ some
    refine ⟨⟨i, span, issue⟩, (Checker.mem_findings_iff _ p _).mpr ?_, rfl⟩
    exact ⟨_, stmt, _, split, length.symm, .undefinedReference, List.mem_singleton.mpr rfl, found⟩

/-- What comes of an execution that a fresh evaluation reaches. It has one line in the report. The
line tells of a missing declaration exactly if the rule for references finds one in that statement;
otherwise the instruction that is performed, and its condition if there is one, are the last ones
of their names before it. -/
theorem run_undefined_iff_finding (memory : Memory) (files : FileSystem) (p : Program) (i : Nat)
    (name : String) (under : Option String) (span : Span)
    (executed : p.statements[i]? = some (.execute name under span))
    (reached : (run dir { memory, files } (p.take i)).abort = none) :
    let earlier := (p.take i).statements
    let before := (run dir { memory, files } (p.take i)).state
    let after := (run dir { memory, files } (p.take (i + 1))).state
    ∃ line, (run dir { memory, files } p).report.filter (·.index = i) = [line] ∧
      (line.outcome.IsUndefined ↔
        ∃ f ∈ (Checker.mk [.undefinedReference]).findings p, f.statement = i) ∧
      (¬line.outcome.IsUndefined → ∃ d c,
        IsLatest .instruction Instruction.name earlier d ∧ d.name = name ∧
          (∀ k, c = some k → IsLatest .condition Condition.name earlier k) ∧
          under = c.map Condition.name ∧ before.Performs dir d c after line.outcome) := by
  intro earlier before after
  have track : before.declared.Track earlier := track_of_run memory files (p.take i) reached
  obtain ⟨line, only, leads⟩ := exists_line_of_reached _ p i name under span executed reached
  have missing := before.execute_isUndefined_iff_issues dir name under span earlier track
  have performs := before.exists_performs dir name under earlier track
  rw [leads] at missing performs
  refine ⟨line, only, ?_, performs⟩
  rw [missing, exists_finding_iff p i _ executed]

def moved : Instruction :=
  ⟨"docs", .createFolder, [⟨"name", "one", .zero⟩, ⟨"path", "new", .zero⟩], .zero⟩

def renamed : Condition := ⟨"docs", [⟨"name", "two", .zero⟩], .zero⟩

def redeclaring : Program where
  statements :=
    [.instruction { moved with params := [⟨"name", "one", .zero⟩, ⟨"path", "old", .zero⟩] },
      .condition renamed, .instruction moved, .execute "docs" (some "docs") .zero]

theorem run_undefined_iff_finding_redeclaring :
    let s : State := { files := { clock := ⟨2024, 1, 1, 0, 0, 0⟩ } }
    let before := run (.ofText "/") s (redeclaring.take 3)
    let after := run (.ofText "/") s (redeclaring.take 4)
    redeclaring.statements[3]? = some (.execute "docs" (some "docs") .zero) ∧
      before.abort = none ∧ (Checker.mk [.undefinedReference]).findings redeclaring = [] ∧
      ∃ line, (run (.ofText "/") s redeclaring).report.filter (·.index = 3) = [line] ∧
        before.state.Performs (.ofText "/") moved (some renamed) after.state line.outcome := by
  intro s before after
  have executed : redeclaring.statements[3]? = some (.execute "docs" (some "docs") .zero) := rfl
  have reached : before.abort = none := by decide +kernel
  have silent : (Checker.mk [.undefinedReference]).findings redeclaring = [] := by decide +kernel
  refine ⟨executed, reached, silent, ?_⟩
  obtain ⟨line, only, missing, performs⟩ :=
    run_undefined_iff_finding .empty s.files redeclaring 3 "docs" (some "docs") .zero executed
      reached
  have known : ¬line.outcome.IsUndefined := by
    rw [missing, silent]
    nofun
  obtain ⟨d, c, latest, named, condition, same, performed⟩ := performs known
  refine ⟨line, only, ?_⟩
  obtain ⟨k, rfl, -⟩ := Option.map_eq_some_iff.mp same.symm
  have last : d = moved := by
    rcases (isLatest_concat [_, _] (.instruction moved) d).mp latest with here | ⟨-, others⟩
    · cases here
      rfl
    · exact absurd named.symm (others moved rfl)
  have applied : k = renamed := by
    rcases (isLatest_concat [_, _] (.instruction moved) k).mp (condition k rfl) with
      here | ⟨earlier, -⟩
    · cases here
    · rcases (isLatest_concat [_] (.condition renamed) k).mp earlier with here | ⟨-, others⟩
      · cases here
        rfl
      · exact absurd (Option.some.inj same) (others renamed rfl)
  rwa [last, applied] at performed

end Evaluation
end SimpleFiles
