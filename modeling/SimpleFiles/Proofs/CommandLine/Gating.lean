import Mathlib.Data.List.Basic
import SimpleFiles.CommandLine
import SimpleFiles.Proofs.Check.Findings

/-! Checking comes before running. A text that does not pass the check is not run at all, by
whatever way it is given; one that passes is evaluated as if there were no check. -/
namespace SimpleFiles

/-- What a text is refused for: a fault in its grammar, or the first error found in it. -/
inductive Interpreter.Refuses (i : Interpreter) (source : String) : InterpreterError → Prop
  | source {fault : Source.Fault} (unread : Source.parse source = .error fault) :
      Refuses i source (.source fault)
  | finding {p : Program} {before after : List Check.Finding} {found : Check.Finding}
      (parsed : Source.parse source = .ok p)
      (listed : i.checker.findings p = before ++ found :: after)
      (mild : ∀ f ∈ before, f.isError = false) (grave : found.isError = true) :
      Refuses i source (.finding found)

structure Interpretation.IsOf (done : Interpretation) (e : Evaluation) : Prop where
  memory : done.memory = e.state.memory
  files : done.files = e.state.files
  ends : e.abort = none → done.result = .ok e.report
  aborts : ∀ abort, e.abort = some abort → done.result = .error (.aborted abort e.report)

def Report.IsClean (r : Report) : Prop := ∀ line ∈ r, ∀ cause, line.outcome ≠ .failed cause

theorem Report.hasFailures_eq_false_iff (r : Report) : r.hasFailures = false ↔ r.IsClean := by
  rw [hasFailures, List.any_eq_false]
  refine forall_congr' fun line => imp_congr_right fun _ => ?_
  cases line.outcome <;> simp [Outcome.isFailure]

namespace Interpreter

variable (i : Interpreter) (source : String)

theorem refuses_or_mild :
    (∃ e, i.Refuses source e) ∨
      ∃ p, Source.parse source = .ok p ∧ ∀ f ∈ i.checker.findings p, f.isError = false := by
  cases parsed : Source.parse source with
  | error fault => exact .inl ⟨_, .source parsed⟩
  | ok p =>
    cases first : i.checker.firstError? p with
    | none => exact .inr ⟨p, rfl, (i.checker.firstError?_eq_none_iff p).mp first⟩
    | some found =>
      obtain ⟨grave, before, after, listed, mild⟩ :=
        (i.checker.firstError?_eq_some_iff p found).mp first
      exact .inl ⟨_, .finding parsed listed mild grave⟩

variable {i source}

theorem run_of_refuses {e : InterpreterError} (h : i.Refuses source e) (p : Program)
    (parsed : Source.parse source = .ok p) (memory : Memory) (files : FileSystem) :
    i.run memory files p = ⟨memory, files, .error e⟩ := by
  cases h with
  | source unread =>
    rw [unread] at parsed
    cases parsed
  | finding same listed mild grave =>
    obtain rfl := Except.ok.inj (same.symm.trans parsed)
    have first := (i.checker.firstError?_eq_some_iff _ _).mpr ⟨grave, _, _, listed, mild⟩
    rw [run, Checker.check, first]

theorem runSource_of_refuses {e : InterpreterError} (h : i.Refuses source e) (files : FileSystem) :
    i.runSource files source = ⟨.empty, files, .error e⟩ := by
  rw [runSource]
  cases parsed : Source.parse source with
  | ok p => exact run_of_refuses h p parsed .empty files
  | error fault =>
    cases h with
    | source unread =>
      cases unread.symm.trans parsed
      rfl
    | finding same _ _ _ => cases same.symm.trans parsed

theorem run_isOf (p : Program) (mild : ∀ f ∈ i.checker.findings p, f.isError = false)
    (memory : Memory) (files : FileSystem) :
    (i.run memory files p).IsOf (Evaluation.run i.directory { memory, files } p) := by
  rw [run, Checker.check, (i.checker.firstError?_eq_none_iff p).mpr mild]
  refine ⟨rfl, rfl, fun ended => ?_, fun abort aborted => ?_⟩
  · simp only [evaluate, ended]
  · simp only [evaluate, aborted]

end Interpreter

namespace Command

variable {i : Interpreter} {source : String} (files : FileSystem)

theorem runSource_of_refuses {e : InterpreterError} (h : i.Refuses source e) :
    runSource i files source = { errors := errorLine e.message, files, ending := .failure } := by
  rw [runSource, Interpreter.runSource_of_refuses h]
  cases h <;> rfl

theorem checkSource_of_refuses (file : Path) {e : InterpreterError} (h : i.Refuses source e) :
    (checkSource i.checker files file source).ending = .failure := by
  rw [checkSource]
  cases h with
  | source unread => rw [unread]
  | finding parsed listed mild grave => simp [parsed, listed, grave]

theorem checkSource_of_mild (file : Path) (p : Program) (parsed : Source.parse source = .ok p)
    (mild : ∀ f ∈ i.checker.findings p, f.isError = false) :
    (checkSource i.checker files file source).ending = .success := by
  have none : (i.checker.findings p).any Check.Finding.isError = false := by simpa using mild
  simp [checkSource, parsed, none]

theorem checkSource_files (c : Checker) (file : Path) :
    (checkSource c files file source).files = files := by
  rw [checkSource]
  split
  · rfl
  · dsimp only
    split <;> rfl

theorem runSource_of_isOf (e : Evaluation) (h : (i.runSource files source).IsOf e) :
    (runSource i files source).files = e.state.files ∧
      ((runSource i files source).ending = .success ↔ e.abort = none ∧ e.report.IsClean) := by
  rw [runSource]
  cases aborted : e.abort with
  | some abort => simp [h.aborts abort aborted, h.files]
  | none =>
    rw [← Report.hasFailures_eq_false_iff]
    cases failed : e.report.hasFailures <;> simp [h.ends aborted, h.files, failed, Ending.ofSuccess]

/-- Checking comes before running, and foretells it. Where the text of a file is no program, or the
configured checker finds an error in it, it is refused for the fault in its grammar or for the
first error: by no way is anything run of it, all is left as it was, and a check fails as well.
Otherwise a check succeeds, whatever warnings there are, and running the program is evaluating it
with fresh declarations; the run succeeds exactly if no assignment aborts it and no statement
fails. So a run succeeds only where a check does. -/
theorem check_gates_run (h : Host) (c : Config) (file : Path) (source : String)
    (readable : h.files.readText (h.directory.join file) = .ok source) (directory : Option Path)
    (strictRun strictCheck : Bool) :
    let i : Interpreter := ⟨.ofStrict c.isStrict, c.directory⟩
    let ran := (Command.run file directory strictRun).perform h c
    let checked := (Command.check file strictCheck).perform h c
    checked.files = h.files ∧
      ((∀ p, Source.parse source = .ok p → ∃ f ∈ i.checker.findings p, f.isError = true) →
        ∃ e, i.Refuses source e ∧
          (∀ files, i.runSource files source = ⟨.empty, files, .error e⟩) ∧
          (∀ p, Source.parse source = .ok p →
            ∀ memory files, i.run memory files p = ⟨memory, files, .error e⟩) ∧
          ran = { errors := errorLine e.message, files := h.files, ending := .failure } ∧
          checked.ending = .failure) ∧
      (∀ p, Source.parse source = .ok p → (∀ f ∈ i.checker.findings p, f.isError = false) →
        checked.ending = .success ∧
          (∀ memory files,
            (i.run memory files p).IsOf (Evaluation.run c.directory { memory, files } p)) ∧
          (∀ files,
            (i.runSource files source).IsOf (Evaluation.run c.directory { files } p)) ∧
          let e := Evaluation.run c.directory { files := h.files } p
          ran.files = e.state.files ∧
            (ran.ending = .success ↔ e.abort = none ∧ e.report.IsClean)) ∧
      (ran.ending = .success → checked.ending = .success) := by
  intro i ran checked
  have runs : ran = runSource i h.files source := by
    simp only [ran, perform, onSource, readable, i]
  have checks : checked = checkSource i.checker h.files file source := by
    simp only [checked, perform, onSource, readable, i]
  rw [runs, checks]
  have admitted p (parsed : Source.parse source = .ok p)
      (mild : ∀ f ∈ i.checker.findings p, f.isError = false) :
      ∀ files, (i.runSource files source).IsOf (Evaluation.run c.directory { files } p) := by
    intro files
    rw [Interpreter.runSource, parsed]
    exact Interpreter.run_isOf p mild .empty files
  refine ⟨checkSource_files .., fun unfit => ?_, fun p parsed mild => ?_, fun succeeded => ?_⟩
  · rcases i.refuses_or_mild source with
      ⟨e, refuses⟩ | ⟨p, parsed, mild⟩
    · exact ⟨e, refuses, Interpreter.runSource_of_refuses refuses,
        Interpreter.run_of_refuses refuses, runSource_of_refuses h.files refuses,
        checkSource_of_refuses h.files file refuses⟩
    · obtain ⟨f, listed, grave⟩ := unfit p parsed
      rw [mild f listed] at grave
      cases grave
  · exact ⟨checkSource_of_mild h.files file p parsed mild, Interpreter.run_isOf p mild,
      admitted p parsed mild, runSource_of_isOf h.files _ (admitted p parsed mild h.files)⟩
  · rcases i.refuses_or_mild source with
      ⟨e, refuses⟩ | ⟨p, parsed, mild⟩
    · rw [runSource_of_refuses h.files refuses] at succeeded
      cases succeeded
    · exact checkSource_of_mild h.files file p parsed mild

/-- A program that makes a folder, with a key that only the strict checker minds. -/
def making : String :=
  "BEGIN INST a->:create_folder-->name=\"d\"-->path=\"p\"; EXEC_INST a; END"

def makingProgram : Program where
  statements :=
    [.instruction ⟨"a", .createFolder,
      [⟨"name", "d", ⟨28, 39, 0, 28, 0, 39⟩⟩, ⟨"path", "p", ⟨39, 50, 0, 39, 0, 50⟩⟩],
      ⟨6, 51, 0, 6, 0, 51⟩⟩,
    .execute "a" none ⟨52, 64, 0, 52, 0, 64⟩]
  span := ⟨0, 68, 0, 0, 0, 68⟩

def hosting : Host where
  files := { tree := .ofList [(["prog"], .file making.toUTF8)], clock := ⟨2024, 1, 1, 0, 0, 0⟩ }
  directory := .ofText "/"

theorem check_gates_run_making :
    let file := Path.ofText "prog"
    let configured isStrict : Config := ⟨.ofText "/", isStrict, "info"⟩
    let ran isStrict := (Command.run file none false).perform hosting (configured isStrict)
    let checked isStrict := (Command.check file false).perform hosting (configured isStrict)
    hosting.files.readText (hosting.directory.join file) = .ok making ∧
      ((ran true).ending = .failure ∧ (ran true).files = hosting.files ∧
        (checked true).ending = .failure) ∧
      (ran false).ending = .success ∧ (checked false).ending = .success := by
  intro file configured ran checked
  have readable : hosting.files.readText (hosting.directory.join file) = .ok making := by
    decide +kernel
  have parsed : Source.parse making = .ok makingProgram := by decide +kernel
  have grave : ∃ f ∈ Checker.strict.findings makingProgram, f.isError = true := by
    decide +kernel
  have mild : ∀ f ∈ Checker.default.findings makingProgram, f.isError = false := by
    decide +kernel
  have passes : let e := Evaluation.run (.ofText "/") { files := hosting.files } makingProgram
      e.abort = none ∧ e.report.hasFailures = false := by
    decide +kernel
  obtain ⟨-, refused, -, -⟩ :=
    check_gates_run hosting (configured true) file making readable none false false
  obtain ⟨-, -, admitted, -⟩ :=
    check_gates_run hosting (configured false) file making readable none false false
  obtain ⟨e, -, -, -, stopped, failed⟩ := refused fun p same => by
    obtain rfl := Except.ok.inj (parsed.symm.trans same)
    exact grave
  obtain ⟨succeeded, -, -, -, runs⟩ := admitted makingProgram parsed mild
  refine ⟨readable, ⟨?_, ?_, failed⟩, runs.mpr ⟨passes.1, ?_⟩, succeeded⟩
  · exact congrArg Completion.ending stopped
  · exact congrArg Completion.files stopped
  · exact (Report.hasFailures_eq_false_iff _).mp passes.2

end Command
end SimpleFiles
