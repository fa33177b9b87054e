import SimpleFiles.Config.Format
import SimpleFiles.EnvFile
import SimpleFiles.FileSystem
import SimpleFiles.Toml.Writer

/-! The configuration. Each setting has the value that the highest source gives
it: what was asked for, then the variables of the process and of an environment
file, then a configuration file, then the default. -/
namespace SimpleFiles

structure Config where
  directory : Path
  isStrict : Bool
  logLevel : String
deriving DecidableEq, Repr, Inhabited

inductive ConfigError where
  | notFound (path : String)
  | unreadable
  | invalid
deriving DecidableEq, Repr, Inhabited

def ConfigError.message : ConfigError → String
  | .notFound path => "Config file not found: " ++ path
  | .unreadable => "Failed to load configuration"
  | .invalid => "Invalid configuration"

/-- What a process finds around it. -/
structure Host where
  files : FileSystem
  directory : Path
  environment : NameTable String := .empty
  formats : Config.Formats := .own

namespace Config

/-- The settings of one source, by their names in lower case. -/
abbrev Layer := NameTable Toml.Value

def isKeyChar (c : Char) : Bool := c.isAlphanum || c = '_' || c = '-'

def isSpace (c : Char) : Bool := c = ' ' || c = '\t'

/-- A number in brackets, with what follows them. -/
def dropPlace? (cs : List Char) : Option (List Char) :=
  let inner := cs.takeWhile (· ≠ ']')
  let number := ((inner.dropWhile isSpace).reverse.dropWhile isSpace).reverse
  if number.head? ≠ some '+' ∧ (Text.int64? (.ofList number)).isSome ∧ inner.length < cs.length
  then some (cs.drop (inner.length + 1))
  else none

/-- Keys after dots and numbers in brackets, up to the end. -/
def isTrail : Nat → List Char → Bool
  | _, [] => true
  | 0, _ => false
  | fuel + 1, c :: rest =>
    if c = '.' then
      (rest.head?.any isKeyChar) && isTrail fuel (rest.dropWhile isKeyChar)
    else c = '[' && (dropPlace? rest).any (isTrail fuel)

/-- A name that leads into a setting makes a table of it, or an array. -/
def entryOf (name : String) (value : Toml.Value) : String × Toml.Value :=
  let (head, trail) := name.toList.span isKeyChar
  if head ≠ [] ∧ trail ≠ [] ∧ isTrail trail.length trail then
    (.ofList head, if trail.head? = some '.' then .table false else .array)
  else (name, value)

/-- One more entry of a source; an empty table sets nothing. -/
def Layer.set (layer : Layer) (entry : String × Toml.Value) : Layer :=
  let (name, value) := entryOf entry.1 entry.2
  if value.isEmptyTable then layer else layer.insert (Text.lower name) value

def Layer.ofList (values : List (String × Toml.Value)) : Layer := values.foldl Layer.set .empty

def variableNames : List String :=
  ["SIMPLEFILES_WORKING_DIR", "SIMPLEFILES_STRICT_PARAMETER_KEYS", "SIMPLEFILES_LOG_LEVEL"]

def variableMark : List Char := "simplefiles_".toList

/-- The setting that a variable is about. -/
def settingOf? (name : String) : Option String :=
  let cs := (Text.lower name).toList
  if variableMark.isPrefixOf cs then some (.ofList (cs.drop variableMark.length)) else none

/-- The settings among variables; of two variables for one setting the later counts. -/
def Layer.ofEnvironment (environment : NameTable String) : Layer :=
  .ofList (environment.entries.reverse.filterMap fun (name, value) =>
    (settingOf? name).map (·, Toml.Value.text value))

def upwards : Nat → Path → List Path
  | 0, _ => []
  | height + 1, p => p :: ((p.parent?.map (upwards height)).getD [])

def environmentFile? (h : Host) : Option Path :=
  ((upwards (h.directory.depth + 1) h.directory).map (·.join (.ofText ".env"))).find?
    h.files.isFile

/-- The lines of a content up to the first that is no text. -/
def textLines (content : ByteArray) : String :=
  match String.fromUTF8? content with
  | some text => text
  | none =>
    let lines := (content.toList.splitOn 10).map fun line => String.fromUTF8? ⟨line.toArray⟩
    .join ((lines.takeWhile Option.isSome).filterMap fun line => line.map (· ++ "\n"))

/-- The variables of the process, and those of the environment file that it does not set. -/
def environment (h : Host) : NameTable String :=
  match (environmentFile? h).bind fun p => (h.files.content p).toOption with
  | some content => EnvFile.load h.environment (textLines content)
  | none => h.environment

/-- The document that a path leads to, and its format. Where there is no file, its extension may
have been left out. -/
def document? (h : Host) (p : Path) : Option (Path × Format) :=
  if h.files.isFile p then (h.formats.named? p.fileName).map (p, ·)
  else do
    let name ← p.fileName?
    let extended := fun (f : Format) =>
      f.extensions.map fun extension => (p.withFileName (name ++ "." ++ extension), f)
    (h.formats.all.flatMap extended).find? fun (q, _) => h.files.isFile q

def documentText? (h : Host) (p : Path) : Option (Format × String) := do
  let (q, format) ← document? h p
  let content ← (h.files.content q).toOption
  return (format, Text.ofBytes content)

def layerOfText (format : Format) (text : String) : Except ConfigError Layer :=
  match format.read? text with
  | some values => .ok (.ofList values)
  | none => .error .unreadable

def defaultFile : String := "simplefiles.toml"

/-- The settings of the configuration file: of the given one, which must be there, or
else of the one with the usual name, if it can be read. -/
def fileLayer (h : Host) : Option Path → Except ConfigError Layer
  | some p =>
    if p = .empty ∨ !h.files.pathExists (h.directory.join p) then .error (.notFound p.text)
    else
      match documentText? h (h.directory.join p) with
      | some (format, text) => layerOfText format text
      | none => .error .unreadable
  | none =>
    match documentText? h (h.directory.join (.ofText defaultFile)) with
    | some (format, text) => layerOfText format text
    | none => .ok .empty

def find? (layers : List Layer) (name : String) : Option Toml.Value :=
  layers.findSome? (·.find? name)

def setting (layers : List Layer) (name : String) (read : Toml.Value → Option α) (default : α) :
    Except ConfigError α :=
  match find? layers name with
  | none => .ok default
  | some value =>
    match read value with
    | some result => .ok result
    | none => .error .invalid

structure Wishes where
  file : Option Path := none
  directory : Option Path := none
  isStrict : Option Bool := none
  logLevel : Option String := none
deriving DecidableEq, Repr, Inhabited

/-- The configuration; a relative directory lies below that of the process. -/
def load (h : Host) (w : Wishes) : Except ConfigError Config := do
  let layers := [.ofEnvironment (environment h), ← fileLayer h w.file]
  let directory ← setting layers "working_dir" Toml.Value.toText? h.directory.text
  let isStrict ← setting layers "strict_parameter_keys" Toml.Value.toBool? false
  let logLevel ← setting layers "log_level" Toml.Value.toText? "info"
  return {
    directory := h.directory.join (w.directory.getD (.ofText directory))
    isStrict := w.isStrict.getD isStrict
    logLevel := w.logLevel.getD logLevel }

def toToml (c : Config) : String :=
  "working_dir = " ++ Toml.writeText c.directory.text ++ "\n"
    ++ "strict_parameter_keys = " ++ Toml.writeBool c.isStrict ++ "\n"
    ++ "log_level = " ++ Toml.writeText c.logLevel ++ "\n"

end Config
end SimpleFiles
