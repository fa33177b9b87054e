import SimpleFiles.Path

/-! The arguments of a command line, read from left to right. A value is taken
over when the next argument that is no value has been read. -/
namespace SimpleFiles

inductive Command where
  | run (file : Path) (directory : Option Path) (isStrict : Bool)
  | check (file : Path) (isStrict : Bool)
  | ast (file : Path)
  | config
deriving DecidableEq, Repr, Inhabited

structure Arguments where
  config : Option Path
  command : Command
deriving DecidableEq, Repr, Inhabited

/-- Why arguments are refused; help that is asked for counts as well. -/
inductive UsageError where
  | nothingGiven
  | missingCommand
  | unknownCommand
  | missingFile
  | unknownArgument
  | help
  | invalidValue
  | needlessValue
  | repeated
deriving DecidableEq, Repr, Inhabited

namespace Arguments

inductive Verb where
  | run
  | check
  | ast
  | config
  | help
deriving DecidableEq, Repr, Inhabited

def Verb.ofWord? : String → Option Verb
  | "run" => some .run
  | "check" => some .check
  | "ast" => some .ast
  | "config" => some .config
  | "help" => some .help
  | _ => none

/-- What has a value: two options and the file. -/
inductive Slot where
  | config
  | directory
  | file
deriving DecidableEq, Repr, Inhabited

structure Form where
  hasDirectory : Bool := false
  hasStrict : Bool := false
  hasFile : Bool := false
  excess : UsageError := .unknownArgument
deriving DecidableEq, Repr, Inhabited

namespace Form

def beforeVerb : Form := { excess := .unknownCommand }

def ofVerb : Verb → Form
  | .run => { hasDirectory := true, hasStrict := true, hasFile := true }
  | .check => { hasStrict := true, hasFile := true }
  | .ast => { hasFile := true }
  | .config | .help => {}

def slot? (f : Form) (option : String) : Option Slot :=
  if option = "config" then some .config
  else if option = "working-dir" ∧ f.hasDirectory then some .directory
  else none

end Form

/-- A slot whose value is still to come, or still to be taken over. -/
inductive Pending where
  | nothing
  | awaited (slot : Slot)
  | given (slot : Slot) (value : String)
deriving DecidableEq, Repr, Inhabited

/-- What has been read; after two dashes only files follow. -/
structure Scan where
  values : List (Slot × Path) := []
  isStrict : Bool := false
  hasFile : Bool := false
  pending : Pending := .nothing
  isTrailing : Bool := false
deriving DecidableEq, Repr, Inhabited

namespace Scan

def value? (s : Scan) (slot : Slot) : Option Path := s.values.lookup slot

def isAwaiting (s : Scan) : Bool :=
  match s.pending with
  | .awaited _ => true
  | _ => false

/-- Takes over a value; a slot has at most one, and it is not empty. -/
def put (s : Scan) (slot : Slot) (value : String) : Except UsageError Scan :=
  if (s.value? slot).isSome then .error .repeated
  else if value = "" then .error .invalidValue
  else .ok { s with values := (slot, .ofText value) :: s.values, pending := .nothing }

def settle (s : Scan) : Except UsageError Scan :=
  match s.pending with
  | .nothing => .ok s
  | .awaited _ => .error .invalidValue
  | .given slot value => s.put slot value

def long (f : Form) (s : Scan) (name : String) (value : Option String) : Except UsageError Scan :=
  match f.slot? name with
  | some slot => do
    let s ← s.settle
    match value with
    | some value => s.put slot value
    | none => return { s with pending := .awaited slot }
  | none =>
    if name = "help" ∨ name = "strict" ∧ f.hasStrict then
      if value.isSome then .error .needlessValue
      else do
        let s ← s.settle
        if name = "help" then throw .help
        if s.isStrict then throw .repeated
        return { s with isStrict := true }
    else .error .unknownArgument

def plain (f : Form) (s : Scan) (word : String) : Except UsageError Scan :=
  match s.pending, s.isTrailing with
  | .awaited slot, false => .ok { s with pending := .given slot word }
  | _, _ =>
    if f.hasFile && !s.hasFile then do
      let s ← s.settle
      return { s with pending := .given .file word, hasFile := true }
    else .error f.excess

def splitOption (cs : List Char) : String × Option String :=
  (.ofList (cs.takeWhile (· ≠ '=')),
    match cs.dropWhile (· ≠ '=') with
    | [] => none
    | _ :: value => some (.ofList value))

def word (f : Form) (s : Scan) (w : String) : Except UsageError Scan :=
  if s.isTrailing then s.plain f w
  else
    match w.toList with
    | ['-', '-'] => .ok { s with isTrailing := true }
    | '-' :: '-' :: rest =>
      let (name, value) := splitOption rest
      s.long f name value
    | '-' :: 'h' :: _ => do
      let _ ← s.settle
      throw .help
    | '-' :: _ :: _ => .error .unknownArgument
    | _ => s.plain f w

def command (s : Scan) : Verb → Except UsageError Command
  | .config => .ok .config
  | .help => .error .help
  | verb =>
    match s.value? .file with
    | none => .error .missingFile
    | some file => .ok (match verb with
      | .run => .run file (s.value? .directory) s.isStrict
      | .check => .check file s.isStrict
      | _ => .ast file)

end Scan

def helpOn : List String → UsageError
  | [] => .help
  | [word] => if (Verb.ofWord? word).isSome then .help else .unknownCommand
  | _ => .unknownCommand

/-- The arguments after a verb. A configuration file that is named here wins. -/
def readVerb (before : Scan) (verb : Verb) (rest : List String) : Except UsageError Arguments := do
  let s ← (← rest.foldlM (Scan.word (.ofVerb verb)) {}).settle
  let command ← s.command verb
  let before ← before.settle
  return ⟨(s.value? .config).or (before.value? .config), command⟩

def readFrom (s : Scan) : List String → Except UsageError Arguments
  | [] => do
    let s ← s.settle
    throw (if (s.value? .config).isNone then .nothingGiven else .missingCommand)
  | w :: rest =>
    match Verb.ofWord? w with
    | some verb =>
      if s.isTrailing then .error .unknownArgument
      else if s.isAwaiting then do readFrom (← s.word .beforeVerb w) rest
      else if verb = .help then .error (helpOn rest)
      else readVerb s verb rest
    | none => do readFrom (← s.word .beforeVerb w) rest

def read (words : List String) : Except UsageError Arguments := readFrom {} words

end Arguments
end SimpleFiles
