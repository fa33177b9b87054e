import SimpleFiles.Execution.Error
import SimpleFiles.Filter

/-! Grouping: entries that a filter admits are moved or copied below a
directory, each to the place it has below the directory it comes from. -/
namespace SimpleFiles

inductive GroupMode where
  | move
  | copy
deriving DecidableEq, Repr, Inhabited

/-- Every other text means moving. -/
def GroupMode.ofText (text : String) : GroupMode := if text = "copy" then .copy else .move

namespace Group

def ownKeys : List String := ["group_target", "path", "mode"]

structure Plan where
  mode : GroupMode
  entries : List Path
  base : Path
  output : Path
deriving DecidableEq, Repr, Inhabited

/-- The entries to choose from: an earlier result of the instruction itself, the
result that its target names, or whatever lies below the target. -/
def candidates (fs : FileSystem) (dir : Path) (memory : Memory) (instruction : String)
    (params : Parameters) : Except ExecutionError ResultSet :=
  match memory.results.find? instruction with
  | some result => .ok result
  | none =>
    match params.find? "group_target" with
    | none => .error (.refused instruction .noGroupTarget)
    | some target =>
      match memory.results.find? target with
      | some result => .ok result
      | none =>
        let root := dir.join (.ofText target)
        if fs.isDirectory root then .ok ⟨root, fs.walk root⟩
        else .error (.refused instruction .groupTargetNotDirectory)

def plan (fs : FileSystem) (dir : Path) (memory : Memory) (declared : Instruction)
    (condition : Option Condition) : Except ExecutionError Plan := do
  let name := declared.name
  let params ← (Parameters.merge .group declared.params (condition.map (·.params))
    memory.env).mapError .memory
  let filter ← (Filter.ofParameters params ownKeys).mapError (.filter name)
  let source ← candidates fs dir memory name params
  match params.find? "path", params.find? "mode" with
  | none, _ => throw (.refused name .noPath)
  | _, none => throw (.refused name .noMode)
  | some path, some mode =>
    return ⟨.ofText mode, filter.apply fs source.entries, source.base, dir.join (.ofText path)⟩

/-- Where an entry goes: to its place relative to the base, or right below the output. -/
def destination (entry base output : Path) : Path :=
  match entry.relativeTo? base with
  | some relative =>
    if relative.text = "" then output.join (.ofText entry.shortText) else output.join relative
  | none => output.join (.ofText entry.shortText)

/-- Where an entry cannot be moved, a file is copied and then removed. -/
def moveEntry (fs : FileSystem) (source target : Path) : FileSystem × Bool :=
  match fs.rename source target with
  | .ok fs => (fs, true)
  | .error _ =>
    if fs.isFile source then
      match fs.copyFile source target with
      | .error _ => (fs, false)
      | .ok fs =>
        match fs.removeFile source with
        | .error _ => (fs, false)
        | .ok fs => (fs, true)
    else (fs, false)

/-- A directory is copied without what it holds. -/
def copyEntry (fs : FileSystem) (source target : Path) : FileSystem × Bool :=
  if fs.isDirectory source then
    match fs.createAll target with
    | (fs, .ok ()) => (fs, true)
    | (fs, .error _) => (fs, false)
  else
    match fs.copyFile source target with
    | .ok fs => (fs, true)
    | .error _ => (fs, false)

def makeParent (fs : FileSystem) (p : Path) : FileSystem × Bool :=
  match p.parent? with
  | none => (fs, true)
  | some parent =>
    match fs.createAll parent with
    | (fs, .ok ()) => (fs, true)
    | (fs, .error _) => (fs, false)

/-- Transfers one entry; one that is in its place already counts as transferred. -/
def transfer (mode : GroupMode) (fs : FileSystem) (entry target : Path) : FileSystem × Bool :=
  if !fs.pathExists entry then (fs, false)
  else if target.same entry then (fs, true)
  else
    match makeParent fs target with
    | (fs, false) => (fs, false)
    | (fs, true) =>
      match mode with
      | .move => moveEntry fs entry target
      | .copy => copyEntry fs entry target

/-- Transfers entries in order; one that fails is left out. -/
def transferEach (mode : GroupMode) (base output : Path) :
    FileSystem → List Path → FileSystem × List Path
  | fs, [] => (fs, [])
  | fs, entry :: rest =>
    let target := destination entry base output
    let (fs, isDone) := transfer mode fs entry target
    let (fs, done) := transferEach mode base output fs rest
    (fs, if isDone then target :: done else done)

def perform (fs : FileSystem) (instruction : String) (p : Plan) :
    FileSystem × Except ExecutionError ResultSet :=
  match fs.createAll p.output with
  | (fs, .error e) => (fs, .error (.files instruction .makeOutput e))
  | (fs, .ok ()) =>
    let (fs, done) := transferEach p.mode p.base p.output fs p.entries
    (fs, .ok ⟨p.output, done⟩)

def run (fs : FileSystem) (dir : Path) (memory : Memory) (declared : Instruction)
    (condition : Option Condition) : FileSystem × Except ExecutionError ResultSet :=
  match plan fs dir memory declared condition with
  | .error e => (fs, .error e)
  | .ok p => perform fs declared.name p

end Group
end SimpleFiles
