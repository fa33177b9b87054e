import SimpleFiles.Program.Action
import SimpleFiles.Program.Reference
import SimpleFiles.Program.Span

/-! Programs: instructions and conditions are declared under names, variables
are assigned, and instructions are executed, alone or under a condition. -/
namespace SimpleFiles

structure Parameter where
  key : String
  value : String
  span : Span := .zero
deriving DecidableEq, Repr, Inhabited

def Parameter.isReference (p : Parameter) : Bool := Reference.isReference p.value

structure Instruction where
  name : String
  action : Action
  params : List Parameter
  span : Span := .zero
deriving DecidableEq, Repr, Inhabited

structure Condition where
  name : String
  params : List Parameter
  span : Span := .zero
deriving DecidableEq, Repr, Inhabited

inductive Statement where
  | instruction (declared : Instruction)
  | condition (declared : Condition)
  | assign (key value : String) (span : Span)
  | execute (instruction : String) (condition : Option String) (span : Span)
deriving DecidableEq, Repr, Inhabited

namespace Statement

def span : Statement → Span
  | .instruction declared => declared.span
  | .condition declared => declared.span
  | .assign _ _ span => span
  | .execute _ _ span => span

def label : Statement → String
  | .instruction declared => "INST " ++ declared.name
  | .condition declared => "COND " ++ declared.name
  | .assign key _ _ => "VAR " ++ key
  | .execute name none _ => "EXEC_INST " ++ name
  | .execute name (some under) _ => "EXEC_COND_MAP " ++ name ++ " WITH_COND " ++ under

def isExecute : Statement → Bool
  | .execute .. => true
  | _ => false

end Statement

structure Program where
  statements : List Statement
  span : Span := .zero
deriving DecidableEq, Repr, Inhabited

end SimpleFiles
