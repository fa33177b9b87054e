import SimpleFiles.NameTable
import SimpleFiles.Path
import SimpleFiles.Program.Reference
import SimpleFiles.Text.Blank

/-! The memory of a run: variables, and what instructions have produced. A
variable is a name bound to a cell; names bound to one cell are aliases. -/
namespace SimpleFiles

inductive MemoryError where
  | unknownVariable (name : String)
  | undefinedAlias (reference : String)
  | circularAssignment (reference : String)
  | reservedName
  | emptyReference
  | unknownResult (instruction : String)
deriving DecidableEq, Repr, Inhabited

def MemoryError.message : MemoryError → String
  | .unknownVariable name => "Unknown variable: " ++ name
  | .undefinedAlias reference =>
    "Cannot assign a variable to another that does not exist: " ++ reference
  | .circularAssignment reference => "Cannot assign a variable to reference itself: " ++ reference
  | .reservedName =>
    "Variable name ITERATOR is a reserved name. Choose a different variable name!"
  | .emptyReference => "The referenced variable cannot be empty string."
  | .unknownResult instruction => "File grouping for instruction " ++ instruction ++ " not found"

/-- The name that name templates keep for themselves. -/
def reservedName : String := "ITERATOR"

structure Environment where
  cells : List String := []
  names : NameTable Nat := .empty
deriving DecidableEq, Repr, Inhabited

namespace Environment

def empty : Environment := {}

def find? (env : Environment) (name : String) : Option String :=
  (env.names.find? name).bind fun cell => env.cells[cell]?

def contains (env : Environment) (name : String) : Bool := env.names.contains name

def get (env : Environment) (name : String) : Except MemoryError String :=
  match env.find? name with
  | some value => .ok value
  | none => .error (.unknownVariable name)

def areAliases (env : Environment) (a b : String) : Bool :=
  match env.names.find? a, env.names.find? b with
  | some x, some y => x == y
  | _, _ => false

/-- A text is written to the cell of a name, or to a new cell if it has none. -/
def write (env : Environment) (name value : String) : Environment :=
  match env.names.find? name with
  | some cell => { env with cells := env.cells.set cell value }
  | none => ⟨env.cells ++ [value], env.names.insert name env.cells.length⟩

/-- Name and value are trimmed. A reference binds the name to the cell it refers to. -/
def assign (env : Environment) (name value : String) : Except MemoryError Environment :=
  let name := Text.trim name
  let value := Text.trim value
  if name = reservedName then .error .reservedName
  else
    match Reference.name? value with
    | none => .ok (env.write name value)
    | some target =>
      if target = "" then .error .emptyReference
      else
        match env.names.find? target with
        | none => .error (.undefinedAlias value)
        | some cell =>
          if target = name then .error (.circularAssignment value)
          else .ok { env with names := env.names.insert name cell }

/-- The value a text denotes: that of a variable if it is a reference, else itself. -/
def resolve (env : Environment) (raw : String) : Except MemoryError String :=
  match Reference.name? raw with
  | none => .ok raw
  | some name => if name = "" then .error .emptyReference else env.get name

end Environment

/-- The entries an instruction produced, and the directory they lie under. -/
structure ResultSet where
  base : Path
  entries : List Path
deriving DecidableEq, Repr, Inhabited

structure Memory where
  env : Environment := .empty
  results : NameTable ResultSet := .empty
deriving DecidableEq, Repr, Inhabited

namespace Memory

def empty : Memory := {}

def assign (m : Memory) (name value : String) : Except MemoryError Memory :=
  (m.env.assign name value).map fun env => { m with env }

def store (m : Memory) (instruction : String) (result : ResultSet) : Memory :=
  { m with results := m.results.insert instruction result }

def result (m : Memory) (instruction : String) : Except MemoryError ResultSet :=
  match m.results.find? instruction with
  | some result => .ok result
  | none => .error (.unknownResult instruction)

def clearVariables (m : Memory) : Memory := { m with env := .empty }

def clearResults (m : Memory) : Memory := { m with results := .empty }

def clear (m : Memory) : Memory := m.clearVariables.clearResults

end Memory
end SimpleFiles
