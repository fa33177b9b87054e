import SimpleFiles.Execution.Error
import SimpleFiles.FileSystem
import SimpleFiles.Parameters

/-! Creating files and folders. A plan is made first, from parameters and a
name file; only then is anything touched. -/
namespace SimpleFiles.Create

inductive Kind where
  | file
  | folder
deriving DecidableEq, Repr, Inhabited

/-- What to create: names within a directory, and the file that new files are copies of. -/
structure Plan where
  kind : Kind
  output : Path
  names : List String
  template : Option Path
deriving DecidableEq, Repr, Inhabited

/-- The names in a name file: its lines, trimmed, those that are blank left out. -/
def namesOfText (text : String) : List String :=
  ((Text.lines text).map Text.trim).filter (· ≠ "")

def namesOfFile (fs : FileSystem) (instruction : String) (file : Path) :
    Except ExecutionError (List String) :=
  match fs.readText file with
  | .error e => .error (.files instruction (.readNames file) e)
  | .ok text =>
    if namesOfText text = [] then .error (.refused instruction (.noNames file))
    else .ok (namesOfText text)

/-- How many names a template is to give; one unless a count says otherwise. -/
def count (instruction : String) : Option String → Except ExecutionError Nat
  | none => .ok 1
  | some raw =>
    match Text.int32? (Text.trim raw) with
    | none => .error (.refused instruction (.countFormat raw))
    | some n =>
      if n < 1 then .error (.refused instruction (.countTooSmall raw)) else .ok n.toNat

def names (fs : FileSystem) (dir : Path) (instruction : String) (params : Parameters) :
    Except ExecutionError (List String) :=
  match params.find? "namefile" with
  | some raw => namesOfFile fs instruction (dir.join (.ofText raw))
  | none =>
    match params.find? "name" with
    | none => .error (.refused instruction .nameMissing)
    | some template => do
      let n ← count instruction (params.find? "count")
      (NameTemplate.names template n).mapError (.naming instruction)

def plan (fs : FileSystem) (dir : Path) (memory : Memory) (kind : Kind) (declared : Instruction)
    (condition : Option Condition) : Except ExecutionError Plan := do
  let params ← (Parameters.merge .create declared.params (condition.map (·.params))
    memory.env).mapError .memory
  let names ← names fs dir declared.name params
  let output := ((params.find? "path").map fun raw => dir.join (.ofText raw)).getD dir
  if kind = .folder then
    if let some name := names.find? ('.' ∈ ·.toList) then
      throw (.refused declared.name (.dotInFolderName name))
  let template := if kind = .file then params.find? "template_path" else none
  return ⟨kind, output, names, template.map fun raw => dir.join (.ofText raw)⟩

/-- Creates one entry; `false` when it is there already. -/
def createOne (fs : FileSystem) (instruction : String) (kind : Kind) (template : Option Path)
    (target : Path) : FileSystem × Except ExecutionError Bool :=
  match kind, template with
  | .file, some template =>
    if fs.pathExists target then (fs, .ok false)
    else
      match fs.copyFile template target with
      | .ok fs => (fs, .ok true)
      | .error e => (fs, .error (.files instruction (.copyTemplate template target) e))
  | .file, none =>
    match fs.createFile target with
    | .ok fs => (fs, .ok true)
    | .error .entryExists => (fs, .ok false)
    | .error e => (fs, .error (.files instruction (.makeFile target) e))
  | .folder, _ =>
    if fs.pathExists target then (fs, .ok false)
    else
      match fs.createAll target with
      | (fs, .ok ()) => (fs, .ok true)
      | (fs, .error e) => (fs, .error (.files instruction (.makeFolder target) e))

/-- Creates entries in order, up to the first that fails; gives those that were not there. -/
def createEach (instruction : String) (kind : Kind) (template : Option Path) :
    FileSystem → List Path → FileSystem × Except ExecutionError (List Path)
  | fs, [] => (fs, .ok [])
  | fs, target :: rest =>
    match createOne fs instruction kind template target with
    | (fs, .error e) => (fs, .error e)
    | (fs, .ok isNew) =>
      match createEach instruction kind template fs rest with
      | (fs, .error e) => (fs, .error e)
      | (fs, .ok created) => (fs, .ok (if isNew then target :: created else created))

def perform (fs : FileSystem) (instruction : String) (p : Plan) :
    FileSystem × Except ExecutionError ResultSet :=
  match fs.createAll p.output with
  | (fs, .error e) => (fs, .error (.files instruction .makeCreatePath e))
  | (fs, .ok ()) =>
    match createEach instruction p.kind p.template fs
        (p.names.map fun name => p.output.join (.ofText name)) with
    | (fs, .error e) => (fs, .error e)
    | (fs, .ok created) => (fs, .ok ⟨p.output, created⟩)

def run (fs : FileSystem) (dir : Path) (memory : Memory) (kind : Kind) (declared : Instruction)
    (condition : Option Condition) : FileSystem × Except ExecutionError ResultSet :=
  match plan fs dir memory kind declared condition with
  | .error e => (fs, .error e)
  | .ok p => perform fs declared.name p

end SimpleFiles.Create
