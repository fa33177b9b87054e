import SimpleFiles.Execution

/-! Evaluating a program, statement by statement. Declarations are kept,
variables assigned, instructions executed and their outcomes reported. Only an
assignment that fails ends an evaluation early. -/
namespace SimpleFiles

inductive Outcome where
  | completed
  | skipped (word : String)
  | failed (cause : StatementError)
deriving DecidableEq, Repr, Inhabited

namespace Outcome

def isFailure : Outcome → Bool
  | .failed _ => true
  | _ => false

def message : Outcome → String
  | .completed => "ok"
  | .skipped word => "skipped: unsupported action :" ++ word
  | .failed cause => "failed: " ++ cause.message

end Outcome

structure ReportLine where
  index : Nat
  label : String
  outcome : Outcome
deriving DecidableEq, Repr, Inhabited

abbrev Report := List ReportLine

namespace Report

def failures (r : Report) : List Nat := (r.filter (·.outcome.isFailure)).map ReportLine.index

def hasFailures (r : Report) : Bool := r.any (·.outcome.isFailure)

def completed (r : Report) : Nat := r.countP (·.outcome = .completed)

end Report

structure Declarations where
  instructions : NameTable Instruction := .empty
  conditions : NameTable Condition := .empty
deriving DecidableEq, Repr, Inhabited

structure State where
  declared : Declarations := {}
  memory : Memory := .empty
  files : FileSystem
deriving DecidableEq, Inhabited

namespace State

def execute (s : State) (dir : Path) (name : String) (condition : Option String) :
    State × Outcome :=
  match s.declared.instructions.find? name with
  | none => (s, .failed (.undefinedInstruction name))
  | some declared =>
    match condition, condition.bind s.declared.conditions.find? with
    | some under, none => (s, .failed (.undefinedCondition under))
    | _, found =>
      match declared.action with
      | .unsupported word => (s, .skipped word)
      | _ =>
        match Execution.run s.files dir s.memory declared found with
        | (files, .ok memory) => ({ s with files, memory }, .completed)
        | (files, .error e) => ({ s with files }, .failed (.execution e))

/-- One statement; only an execution has an outcome, and only an assignment can fail. -/
def step (s : State) (dir : Path) : Statement → Except MemoryError (State × Option Outcome)
  | .instruction declared =>
    .ok ({ s with declared.instructions := s.declared.instructions.insert declared.name declared },
      none)
  | .condition declared =>
    .ok ({ s with declared.conditions := s.declared.conditions.insert declared.name declared },
      none)
  | .assign key value _ =>
    (s.memory.assign key value).map fun memory => ({ s with memory }, none)
  | .execute name condition _ => .ok ((s.execute dir name condition).map id some)

end State

structure Abort where
  statement : Nat
  cause : MemoryError
deriving DecidableEq, Repr, Inhabited

structure Evaluation where
  state : State
  report : Report
  abort : Option Abort
deriving DecidableEq, Inhabited

namespace Evaluation

def runFrom (dir : Path) (index : Nat) (s : State) : List Statement → Evaluation
  | [] => ⟨s, [], none⟩
  | stmt :: rest =>
    match s.step dir stmt with
    | .error e => ⟨s, [], some ⟨index, e⟩⟩
    | .ok (s, outcome) =>
      let e := runFrom dir (index + 1) s rest
      { e with report := (outcome.map (⟨index, stmt.label, ·⟩)).toList ++ e.report }

def run (dir : Path) (s : State) (p : Program) : Evaluation := runFrom dir 0 s p.statements

end Evaluation
end SimpleFiles
