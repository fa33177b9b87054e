import SimpleFiles.Execution.Create
import SimpleFiles.Execution.Group
import SimpleFiles.Execution.Rename

/-! Executing an instruction, alone or under a condition. What it creates or
groups is stored under its name; a failure stores nothing. -/
namespace SimpleFiles.Execution

/-- The action of an instruction; a rename has no result of its own. -/
def act (fs : FileSystem) (dir : Path) (memory : Memory) (declared : Instruction)
    (condition : Option Condition) : FileSystem × Except ExecutionError (Option ResultSet) :=
  match declared.action with
  | .createFile => (Create.run fs dir memory .file declared condition).map id (·.map some)
  | .createFolder => (Create.run fs dir memory .folder declared condition).map id (·.map some)
  | .group => (Group.run fs dir memory declared condition).map id (·.map some)
  | .rename => (Rename.run fs dir memory declared condition).map id (·.map fun () => none)
  | .unsupported word => (fs, .error (.refused declared.name (.unsupportedAction word)))

def store (memory : Memory) (name : String) : Option ResultSet → Memory
  | some result => memory.store name result
  | none => memory

def run (fs : FileSystem) (dir : Path) (memory : Memory) (declared : Instruction)
    (condition : Option Condition) : FileSystem × Except ExecutionError Memory :=
  (act fs dir memory declared condition).map id (·.map (store memory declared.name))

end SimpleFiles.Execution
