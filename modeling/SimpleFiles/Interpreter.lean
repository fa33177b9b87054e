import SimpleFiles.Check
import SimpleFiles.Evaluation
import SimpleFiles.Source

/-! Interpreting programs: they are read, checked and then evaluated from fresh
declarations. A program with an error is not run at all. -/
namespace SimpleFiles

inductive InterpreterError where
  | source (fault : Source.Fault)
  | finding (found : Check.Finding)
  | aborted (abort : Abort) (report : Report)
deriving DecidableEq, Repr, Inhabited

def InterpreterError.message : InterpreterError → String
  | .source fault => "Syntax error: " ++ fault.message
  | .finding found => found.display
  | .aborted abort _ => abort.cause.message

structure Interpreter where
  checker : Checker
  directory : Path
deriving DecidableEq, Repr, Inhabited

structure Interpretation where
  memory : Memory
  files : FileSystem
  result : Except InterpreterError Report

namespace Interpreter

def evaluate (directory : Path) (memory : Memory) (files : FileSystem) (p : Program) :
    Interpretation :=
  let e := Evaluation.run directory { memory, files } p
  ⟨e.state.memory, e.state.files,
    match e.abort with
    | some abort => .error (.aborted abort e.report)
    | none => .ok e.report⟩

def run (i : Interpreter) (memory : Memory) (files : FileSystem) (p : Program) : Interpretation :=
  match i.checker.check p with
  | .error found => ⟨memory, files, .error (.finding found)⟩
  | .ok _ => evaluate i.directory memory files p

def runSource (i : Interpreter) (files : FileSystem) (source : String) : Interpretation :=
  match Source.parse source with
  | .error fault => ⟨.empty, files, .error (.source fault)⟩
  | .ok p => i.run .empty files p

end Interpreter
end SimpleFiles
