import SimpleFiles.Execution.Error
import SimpleFiles.Filter

/-! Renaming: the entries of a directory that a filter admits change the case of
their names. The deepest are renamed first, so that the paths of the others
stay good. -/
namespace SimpleFiles.Rename

def ownKeys : List String := ["mode", "path", "recursive"]

structure Plan where
  mode : CaseMode
  entries : List Path
deriving DecidableEq, Repr, Inhabited

/-- All levels are renamed unless the parameter says something other than true. -/
def isRecursive (params : Parameters) : Bool :=
  (params.find? "recursive").all fun value => Text.sameAsciiCase (Text.trim value) "true"

def placeDeepest (p : Path) : List Path → List Path
  | [] => [p]
  | q :: rest => if q.depth ≤ p.depth then p :: q :: rest else q :: placeDeepest p rest

/-- The deepest paths first; among equals the order is kept. -/
def deepestFirst (paths : List Path) : List Path := paths.foldr placeDeepest []

/-- The directory to work in, and the result that names it if one does. -/
def target (dir : Path) (memory : Memory) (raw : String) : Path × Option ResultSet :=
  match memory.results.find? raw with
  | some result => (result.base, some result)
  | none => (dir.join (.ofText raw), none)

def candidates (fs : FileSystem) (instruction : String) (recursive : Bool) (directory : Path)
    (chained : Option ResultSet) : Except ExecutionError (List Path) :=
  if recursive then .ok (fs.walk directory)
  else
    match chained with
    | some result => .ok result.entries
    | none => (fs.children directory).mapError (.files instruction .listFolder)

def plan (fs : FileSystem) (dir : Path) (memory : Memory) (declared : Instruction)
    (condition : Option Condition) : Except ExecutionError Plan := do
  let name := declared.name
  let params ← (Parameters.merge .rename declared.params (condition.map (·.params))
    memory.env).mapError .memory
  match params.find? "path", params.find? "mode" with
  | some rawPath, some rawMode =>
    let filter ← (Filter.ofParameters params ownKeys).mapError (.filter name)
    let (directory, chained) := target dir memory rawPath
    if !fs.pathExists directory then throw (.refused name .pathMissing)
    if !fs.isDirectory directory then throw (.refused name .pathNotFolder)
    let entries ← candidates fs name (isRecursive params) directory chained
    return ⟨.ofText rawMode, deepestFirst (filter.apply fs entries)⟩
  | _, _ => throw (.refused name .noPathOrMode)

def newPath? (mode : CaseMode) (old : Path) : Option Path :=
  old.fileName?.bind fun name =>
    let new := old.withFileName (FileName.renamed mode name)
    if new.same old then none else some new

/-- Renames in order, up to the first that fails. -/
def renameEach (mode : CaseMode) : FileSystem → List Path → FileSystem × Except ExecutionError Unit
  | fs, [] => (fs, .ok ())
  | fs, old :: rest =>
    match newPath? mode old with
    | none => renameEach mode fs rest
    | some new =>
      match fs.rename old new with
      | .error e => (fs, .error (.renameFailed old e))
      | .ok fs => renameEach mode fs rest

def run (fs : FileSystem) (dir : Path) (memory : Memory) (declared : Instruction)
    (condition : Option Condition) : FileSystem × Except ExecutionError Unit :=
  match plan fs dir memory declared condition with
  | .error e => (fs, .error e)
  | .ok p => renameEach p.mode fs p.entries

end SimpleFiles.Rename
