import SimpleFiles.NameTable
import SimpleFiles.Text.Blank
import SimpleFiles.Text.LetterTable

/-! Files of environment variables: lines of names and values, with comments,
quotes, escapes and references to other variables. Reading stops at the first
line that is wrong; what stands before it counts. -/
namespace SimpleFiles.EnvFile

inductive LineState where
  | complete
  | space
  | escape
  | single
  | singleEscape
  | double
  | doubleEscape
deriving DecidableEq, Repr, Inhabited

def LineState.next (state : LineState) (c : Char) : LineState :=
  let opening := if c = '\\' then LineState.escape
    else if c = '"' then .double
    else if c = '\'' then .single
    else .complete
  match state with
  | .space => opening
  | .escape => .complete
  | .complete => if Text.isBlank c && c ≠ '\n' && c ≠ '\r' then .space else opening
  | .double => if c = '\\' then .doubleEscape else if c = '"' then .complete else .double
  | .doubleEscape => .double
  | .single => if c = '\\' then .singleEscape else if c = '\'' then .complete else .single
  | .singleEscape => .single

/-- Reads a line up to a comment: the state reached, and the text before the comment if any. -/
def scanLine : LineState → List Char → LineState × Option (List Char)
  | state, [] => (state, none)
  | state, c :: rest =>
    if state = .space ∧ c = '#' then (state, some [])
    else
      let (state, before) := scanLine (state.next c) rest
      (state, before.map (c :: ·))

def isComment (cs : List Char) : Bool := (cs.dropWhile Text.isBlank).head? = some '#'

/-- Lines joined where a quote or an escape is still open; `none` stands for a fault. -/
def joinLines (pending : List Char) (state : LineState) :
    List (List Char) → List (Option (List Char))
  | [] => if state = .complete then [] else [none]
  | line :: rest =>
    let whole := pending ++ line
    if isComment whole then some [] :: joinLines [] .complete rest
    else
      match scanLine state line with
      | (_, some before) => some (pending ++ before) :: joinLines [] .complete rest
      | (.complete, none) => some whole :: joinLines [] .complete rest
      | (state, none) => joinLines whole state rest

def rawLines : List Char → List (List Char)
  | [] => []
  | c :: rest =>
    if c = '\n' then ['\n'] :: rawLines rest
    else
      match rawLines rest with
      | [] => [[c]]
      | line :: lines => (c :: line) :: lines

/-- The value of a variable: the first environment that has it, else nothing. -/
def valueOf (environment given : NameTable String) (name : List Char) : List Char :=
  (((environment.find? (.ofList name)).or (given.find? (.ofList name))).getD "").toList

inductive Quote where
  | plain
  | single
  | double
deriving DecidableEq, Repr, Inhabited

/-- Whether a character is text, follows an escape or a dollar sign, or stands past the end. -/
inductive Mode where
  | text
  | escape
  | name (isBraced : Bool) (soFar : List Char)
  | past
deriving DecidableEq, Repr, Inhabited

structure Scan where
  quote : Quote := .plain
  mode : Mode := .text
  output : List Char := []

def Scan.push (s : Scan) (cs : List Char) : Scan := { s with output := s.output ++ cs }

/-- One character of a value; `none` where it cannot stand. -/
def Scan.step (lookup : List Char → List Char) (s : Scan) (c : Char) : Option Scan :=
  match s.mode with
  | .past => if c = ' ' ∨ c = '\t' then some s else none
  | .escape =>
    if c ∈ ['\\', '\'', '"', '$', ' '] then some { s.push [c] with mode := .text }
    else if c = 'n' then some { s.push ['\n'] with mode := .text }
    else none
  | .name isBraced soFar =>
    if Text.isLetterOrNumber c then some { s with mode := .name isBraced (soFar ++ [c]) }
    else if isBraced then
      if c = '\x7d' then some { s.push (lookup soFar) with mode := .text }
      else some { s with mode := .name isBraced (soFar ++ [c]) }
    else if c = '\x7b' ∧ soFar = [] then some { s with mode := .name true [] }
    else if c = '$' then some { s.push (lookup soFar) with mode := .name false [] }
    else some { s.push (lookup soFar ++ [c]) with mode := .text }
  | .text =>
    if s.quote = .single then
      some (if c = '\'' then { s with quote := .plain } else s.push [c])
    else if c = '$' then some { s with mode := .name false [] }
    else if s.quote = .double then
      some (if c = '"' then { s with quote := .plain }
        else if c = '\\' then { s with mode := .escape }
        else s.push [c])
    else
      some (if c = '\'' then { s with quote := .single }
        else if c = '"' then { s with quote := .double }
        else if c = '\\' then { s with mode := .escape }
        else if c = ' ' ∨ c = '\t' then { s with mode := .past }
        else s.push [c])

/-- A value from its first character on; past its end only a comment may stand. -/
def readValue (lookup : List Char → List Char) (s : Scan) : List Char → Option (List Char)
  | [] =>
    if s.quote ≠ .plain then none
    else
      match s.mode with
      | .name true _ => none
      | .name false soFar => some (s.output ++ lookup soFar)
      | _ => some s.output
  | c :: rest =>
    if s.mode = .past ∧ c = '#' then some s.output
    else (s.step lookup c).bind (readValue lookup · rest)

def isNameStart (c : Char) : Bool := c.isAlpha || c = '_'

def isNameChar (c : Char) : Bool := c.isAlphanum || c = '_' || c = '.'

def readName (cs : List Char) : Option (List Char × List Char) :=
  if cs.head?.any isNameStart then some (cs.takeWhile isNameChar, cs.dropWhile isNameChar)
  else none

def dropBlank (cs : List Char) : List Char := cs.dropWhile Text.isBlank

/-- A name and what follows its equals sign; the word `export` may stand before the name. -/
def readAssigned (cs : List Char) : Option (List Char × List Char) := do
  let (name, rest) ← readName cs
  match dropBlank rest with
  | '=' :: rest => return (name, dropBlank rest)
  | rest =>
    if name = "export".toList then
      let (name, rest) ← readName rest
      match dropBlank rest with
      | '=' :: rest => return (name, dropBlank rest)
      | _ => none
    else none

def readLine (lookup : List Char → List Char) (line : List Char) :
    Option (Option (String × String)) :=
  let cs := dropBlank (Text.trimRight line)
  if cs = [] ∨ cs.head? = some '#' then some none
  else do
    let (name, rest) ← readAssigned cs
    if rest = [] ∨ rest.head? = some '#' then return some (.ofList name, "")
    else
      let value ← readValue lookup {} rest
      return some (.ofList name, .ofList value)

/-- Adds the variables of lines to an environment, where those already set win. -/
def addLines (environment given : NameTable String) : List (Option (List Char)) → NameTable String
  | [] => environment
  | none :: _ => environment
  | some line :: rest =>
    match readLine (valueOf environment given) line with
    | none => environment
    | some none => addLines environment given rest
    | some (some (name, value)) =>
      let given := given.insert name value
      if environment.contains name then addLines environment given rest
      else addLines (environment.insert name value) given rest

def load (environment : NameTable String) (text : String) : NameTable String :=
  let cs := match text.toList with
    | '\uFEFF' :: rest => rest
    | cs => cs
  addLines environment .empty (joinLines [] .complete (rawLines cs))

end SimpleFiles.EnvFile
