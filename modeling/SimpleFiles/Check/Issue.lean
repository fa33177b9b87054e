import SimpleFiles.Parameters

/-! What can be wrong with a statement, each issue with the rule that finds it,
its severity and its wording. -/
namespace SimpleFiles.Check

inductive Severity where
  | error
  | warning
  | hint
deriving DecidableEq, Repr, Inhabited

def Severity.title : Severity → String
  | .error => "error"
  | .warning => "warning"
  | .hint => "hint"

inductive Rule where
  | duplicateDeclaration
  | undefinedReference
  | instructionParameters
  | parameterKeys
  | unusedInstruction
deriving DecidableEq, Repr, Inhabited

namespace Rule

def id : Rule → String
  | .duplicateDeclaration => "duplicate-declaration"
  | .undefinedReference => "undefined-reference"
  | .instructionParameters => "instruction-parameters"
  | .parameterKeys => "parameter-keys"
  | .unusedInstruction => "unused-instruction"

def description : Rule → String
  | .duplicateDeclaration => "Instruction and condition names must be unique and non-empty"
  | .undefinedReference => "Executed instructions and conditions must be declared first"
  | .instructionParameters => "Instructions must declare the parameters their action requires"
  | .parameterKeys => "Parameter keys must come from the allow-list and have values"
  | .unusedInstruction => "Declared instructions should be executed"

end Rule

/-- The two kinds of declaration; each has names of its own. -/
inductive Declared where
  | instruction
  | condition
deriving DecidableEq, Repr, Inhabited

namespace Declared

def noun : Declared → String
  | .instruction => "instruction"
  | .condition => "condition"

def capitalNoun : Declared → String
  | .instruction => "Instruction"
  | .condition => "Condition"

end Declared

inductive Issue where
  | blankName (kind : Declared)
  | duplicateName (kind : Declared) (name : String)
  | undefinedInstruction (name : String)
  | undefinedUnder (kind : Declared) (name : String)
  | noName (action : Action)
  | twoNames (action : Action)
  | noCreatePath (action : Action)
  | countNotPositive (action : Action)
  | countNotInteger (action : Action)
  | missing (key : String) (action : Action)
  | unknownAction (word name : String)
  | emptyKey
  | emptyValue (key : String)
  | keyNotAllowed (key : String)
  | neverExecuted (name : String)
deriving DecidableEq, Repr, Inhabited

namespace Issue

def rule : Issue → Rule
  | .blankName _ | .duplicateName .. => .duplicateDeclaration
  | .undefinedInstruction _ | .undefinedUnder .. => .undefinedReference
  | .noName _ | .twoNames _ | .noCreatePath _ | .countNotPositive _ | .countNotInteger _
  | .missing .. | .unknownAction .. => .instructionParameters
  | .emptyKey | .emptyValue _ | .keyNotAllowed _ => .parameterKeys
  | .neverExecuted _ => .unusedInstruction

def severity : Issue → Severity
  | .neverExecuted _ => .warning
  | _ => .error

private def failed (what : String) : String := "Static check failed: " ++ what

def message : Issue → String
  | .blankName kind => failed (kind.capitalNoun ++ " name is null or empty.")
  | .duplicateName kind name => failed ("Duplicate " ++ kind.noun ++ " name '" ++ name ++ "'.")
  | .undefinedInstruction name => "Instruction not found: " ++ name
  | .undefinedUnder kind name =>
    failed ("Invalid or undefined " ++ kind.noun ++ " name '" ++ name ++ "'.")
  | .noName action =>
    failed ("Either NAME or NAMEFILE must be specified for " ++ action.keyword ++ " instruction.")
  | .twoNames action =>
    failed ("Only one of NAME or NAMEFILE must be specified for " ++ action.keyword
      ++ " instruction.")
  | .noCreatePath action =>
    failed ("Invalid PATH parameter for " ++ action.keyword ++ " instruction.")
  | .countNotPositive action =>
    failed ("COUNT parameter must be a positive integer for " ++ action.keyword
      ++ " instruction.")
  | .countNotInteger action =>
    failed ("COUNT parameter must be an integer for " ++ action.keyword ++ " instruction.")
  | .missing key action =>
    failed (Text.upper key ++ " parameter is required for " ++ action.keyword ++ " instruction.")
  | .unknownAction word name =>
    failed ("Unknown instruction type ':" ++ word ++ "' for instruction '" ++ name ++ "'.")
  | .emptyKey => failed "Parameter has an invalid or empty key."
  | .emptyValue key => failed ("Parameter with key '" ++ key ++ "' has an empty value.")
  | .keyNotAllowed key => failed ("Parameter with key '" ++ key ++ "' is invalid.")
  | .neverExecuted name => "Instruction '" ++ name ++ "' is declared but never executed"

end Issue

/-- An issue of a statement, given by its index, and the span it concerns. -/
structure Finding where
  statement : Nat
  span : Span
  issue : Issue
deriving DecidableEq, Repr, Inhabited

namespace Finding

def isError (f : Finding) : Bool := f.issue.severity == .error

def displayAt (f : Finding) (line column : Nat) : String :=
  f.issue.severity.title ++ " at line " ++ toString line ++ ", col " ++ toString column ++ ": "
    ++ f.issue.message ++ " [" ++ f.issue.rule.id ++ "]"

def display (f : Finding) : String := f.displayAt (f.span.startLine + 1) (f.span.startColumn + 1)

/-- The display with both numbers counted in words of 64 bits, where there may be none. -/
def display? (o : Word.Overflow) (f : Finding) : Option String := do
  let line ← Word.succ64? o f.span.startLine
  let column ← Word.succ64? o f.span.startColumn
  return f.displayAt line column

end Finding
end SimpleFiles.Check
