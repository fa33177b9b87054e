import SimpleFiles.Check.Issue
import SimpleFiles.Text.Integer

/-! Checking a program before it runs. Every rule looks at one statement at a
time, with the whole program and the statements before it at hand. -/
namespace SimpleFiles.Check

def instructionNames (statements : List Statement) : List String :=
  statements.filterMap fun
    | .instruction declared => some declared.name
    | _ => none

def conditionNames (statements : List Statement) : List String :=
  statements.filterMap fun
    | .condition declared => some declared.name
    | _ => none

def executedNames (statements : List Statement) : List String :=
  statements.filterMap fun
    | .execute name _ _ => some name
    | _ => none

/-- A name must not be blank, nor stand among the earlier ones of its kind. -/
def nameIssues (kind : Declared) (name : String) (earlier : List String) : List Issue :=
  if Text.isBlankText name then [.blankName kind]
  else if name ∈ earlier then [.duplicateName kind name]
  else []

def declarationIssues (before : List Statement) : Statement → List (Span × Issue)
  | .instruction declared =>
    (nameIssues .instruction declared.name (instructionNames before)).map (declared.span, ·)
  | .condition declared =>
    (nameIssues .condition declared.name (conditionNames before)).map (declared.span, ·)
  | _ => []

def referenceIssues (before : List Statement) : Statement → List (Span × Issue)
  | .execute name none span =>
    if name ∈ instructionNames before then [] else [(span, .undefinedInstruction name)]
  | .execute name (some under) span =>
    (if name ∈ instructionNames before then [] else [(span, .undefinedUnder .instruction name)])
      ++ if under ∈ conditionNames before then [] else [(span, .undefinedUnder .condition under)]
  | _ => []

def lastValue? (params : List Parameter) (key : String) : Option String :=
  (params.reverse.find? (·.lowerKey = key)).map Parameter.value

/-- A value that is not blank, or one that is known only when the program runs. -/
def isPresent (value : Option String) : Bool :=
  value.any fun v => Reference.isReference v || !Text.isBlankText v

def countIssues (action : Action) (count : String) : List Issue :=
  if Reference.isReference count then []
  else
    match Text.int32? (Text.trim count) with
    | some n => if n > 0 then [] else [.countNotPositive action]
    | none => [.countNotInteger action]

def createIssues (action : Action) (params : List Parameter) : List Issue :=
  (match lastValue? params "name", lastValue? params "namefile" with
    | none, none => [.noName action]
    | some _, some _ => [.twoNames action]
    | _, _ => [])
  ++ (if isPresent (lastValue? params "path") then [] else [.noCreatePath action])
  ++ ((lastValue? params "count").map (countIssues action)).getD []

def missingIssues (action : Action) (keys : List String) (params : List Parameter) : List Issue :=
  (keys.filter fun key => !isPresent (lastValue? params key)).map (.missing · action)

def actionIssues (declared : Instruction) : List Issue :=
  match declared.action with
  | .createFile => createIssues .createFile declared.params
  | .createFolder => createIssues .createFolder declared.params
  | .group => missingIssues .group ["group_target", "path", "mode"] declared.params
  | .rename => missingIssues .rename ["path", "mode"] declared.params
  | .unsupported word => [.unknownAction word declared.name]

def parameterIssues : Statement → List (Span × Issue)
  | .instruction declared => (actionIssues declared).map (declared.span, ·)
  | _ => []

def allowedKeys : List String :=
  ["group_target", "path", "mode", "regex", "contains", "type", "file_type", "modified_date"]

def keyIssue? (p : Parameter) : Option Issue :=
  if p.key = "" then some .emptyKey
  else if p.value = "" then some (.emptyValue p.key)
  else if p.key ∈ allowedKeys then none
  else some (.keyNotAllowed p.key)

def keyIssues (params : List Parameter) : List (Span × Issue) :=
  params.filterMap fun p => (keyIssue? p).map (p.span, ·)

def keyListIssues : Statement → List (Span × Issue)
  | .instruction declared => keyIssues declared.params
  | .condition declared => keyIssues declared.params
  | _ => []

def usageIssues (program : Program) : Statement → List (Span × Issue)
  | .instruction declared =>
    if declared.name ∈ executedNames program.statements then []
    else [(declared.span, .neverExecuted declared.name)]
  | _ => []

def Rule.issues (rule : Rule) (program : Program) (before : List Statement) (s : Statement) :
    List (Span × Issue) :=
  match rule with
  | .duplicateDeclaration => declarationIssues before s
  | .undefinedReference => referenceIssues before s
  | .instructionParameters => parameterIssues s
  | .parameterKeys => keyListIssues s
  | .unusedInstruction => usageIssues program s

/-- What a rule finds in the statement that follows others. -/
def Rule.found (rule : Rule) (program : Program) (before : List Statement) (s : Statement) :
    List Finding :=
  (rule.issues program before s).map fun (span, issue) => ⟨before.length, span, issue⟩

def Rule.reportFrom (rule : Rule) (program : Program) (before : List Statement) :
    List Statement → List Finding
  | [] => []
  | s :: rest => rule.found program before s ++ rule.reportFrom program (before ++ [s]) rest

/-- What a rule finds in a program, statement by statement. -/
def Rule.report (rule : Rule) (p : Program) : List Finding := rule.reportFrom p [] p.statements

end Check

/-- Rules in the order in which they report on one statement. -/
structure Checker where
  rules : List Check.Rule
deriving DecidableEq, Repr, Inhabited

namespace Checker

open Check

def default : Checker := ⟨[.duplicateDeclaration, .undefinedReference, .instructionParameters,
  .unusedInstruction]⟩

def strict : Checker := ⟨[.duplicateDeclaration, .undefinedReference, .instructionParameters,
  .parameterKeys, .unusedInstruction]⟩

def ofStrict (isStrict : Bool) : Checker := if isStrict then strict else default

/-- What all rules report, one after the other, sorted by statement. -/
def findings (c : Checker) (p : Program) : List Finding :=
  (c.rules.flatMap (·.report p)).mergeSort fun f g => f.statement ≤ g.statement

def firstError? (c : Checker) (p : Program) : Option Finding := (c.findings p).find? Finding.isError

/-- The first error, or else every finding. -/
def check (c : Checker) (p : Program) : Except Finding (List Finding) :=
  match c.firstError? p with
  | some f => .error f
  | none => .ok (c.findings p)

end Checker

def Program.hasErrors (p : Program) : Bool := (Checker.default.findings p).any Check.Finding.isError

end SimpleFiles
