import SimpleFiles.Json.Reader
import SimpleFiles.Program

/-! The JSON form of a program. Zero spans are left out when written. A record
is read from its named fields, or from an array of its fields in order. -/
namespace SimpleFiles

namespace Span

def toJson (s : Span) : Json := .object [("start", .nat s.start), ("end", .nat s.stop),
  ("start_line", .nat s.startLine), ("start_col", .nat s.startColumn),
  ("end_line", .nat s.stopLine), ("end_col", .nat s.stopColumn)]

def toField (s : Span) : List (String × Json) :=
  if s = .zero then [] else [("span", s.toJson)]

end Span

def Json.record? (names : List String) : Json → Option (List (String × Json))
  | .object fields => some fields
  | .array items => if items.length ≤ names.length then some (names.zip items) else none
  | _ => none

def Json.word? (value : Json) : Option Nat :=
  value.nat?.filter (· < Word.count64)

def Json.fieldText? (name : String) (fields : List (String × Json)) : Option String :=
  (Json.lookup name fields).bind Json.text?

def Json.fieldWord? (name : String) (fields : List (String × Json)) : Option Nat :=
  (Json.lookup name fields).bind Json.word?

namespace Span

def ofJson? (value : Json) : Option Span := do
  let fields ← value.record? ["start", "end", "start_line", "start_col", "end_line", "end_col"]
  return {
    start := ← Json.fieldWord? "start" fields
    stop := ← Json.fieldWord? "end" fields
    startLine := ← Json.fieldWord? "start_line" fields
    startColumn := ← Json.fieldWord? "start_col" fields
    stopLine := ← Json.fieldWord? "end_line" fields
    stopColumn := ← Json.fieldWord? "end_col" fields }

/-- A span that is not given is the zero span. -/
def ofFields? (fields : List (String × Json)) : Option Span :=
  match Json.lookup "span" fields with
  | none => some .zero
  | some value => ofJson? value

end Span

namespace Action

def toJson : Action → Json
  | .unsupported word => .object [("unsupported", .text word)]
  | action => .text action.word

def ofSupported? (word : String) : Option Action :=
  match ofWord word with
  | .unsupported _ => none
  | action => some action

def ofJson? : Json → Option Action
  | .text word => ofSupported? word
  | .object [("unsupported", .text word)] => some (.unsupported word)
  | .object [(word, .null)] => ofSupported? word
  | .object [(word, .object [])] => ofSupported? word
  | _ => none

end Action

namespace Parameter

def toJson (p : Parameter) : Json :=
  .object ([("key", .text p.key), ("value", .text p.value)] ++ p.span.toField)

def ofJson? (value : Json) : Option Parameter := do
  let fields ← value.record? ["key", "value", "span"]
  return {
    key := ← Json.fieldText? "key" fields
    value := ← Json.fieldText? "value" fields
    span := ← Span.ofFields? fields }

end Parameter

def Parameter.listOfFields? (fields : List (String × Json)) : Option (List Parameter) := do
  let items ← (← Json.lookup "params" fields).items?
  items.mapM Parameter.ofJson?

namespace Statement

def toJson : Statement → Json
  | .instruction declared => .object ([("t", .text "Instruction"), ("name", .text declared.name),
      ("action", declared.action.toJson), ("params", .array (declared.params.map Parameter.toJson))]
      ++ declared.span.toField)
  | .condition declared => .object ([("t", .text "Condition"), ("name", .text declared.name),
      ("params", .array (declared.params.map Parameter.toJson))] ++ declared.span.toField)
  | .execute name none span => .object ([("t", .text "ExecuteInstruction"),
      ("instruction", .text name)] ++ span.toField)
  | .execute name (some under) span => .object ([("t", .text "ExecuteCondMap"),
      ("instruction", .text name), ("condition", .text under)] ++ span.toField)
  | .assign key value span => .object ([("t", .text "Variable"), ("key", .text key),
      ("value", .text value)] ++ span.toField)

def instructionOfFields? (fields : List (String × Json)) : Option Statement := do
  return .instruction {
    name := ← Json.fieldText? "name" fields
    action := ← (Json.lookup "action" fields).bind Action.ofJson?
    params := ← Parameter.listOfFields? fields
    span := ← Span.ofFields? fields }

def conditionOfFields? (fields : List (String × Json)) : Option Statement := do
  return .condition {
    name := ← Json.fieldText? "name" fields
    params := ← Parameter.listOfFields? fields
    span := ← Span.ofFields? fields }

/-- The tag tells the kind of statement; a declaration may follow its tag in an array. -/
def ofJson? : Json → Option Statement
  | .object fields => do
    let tag ← Json.fieldText? "t" fields
    if tag = "Instruction" then instructionOfFields? fields
    else if tag = "Condition" then conditionOfFields? fields
    else if tag = "ExecuteInstruction" then
      return .execute (← Json.fieldText? "instruction" fields) none (← Span.ofFields? fields)
    else if tag = "ExecuteCondMap" then
      return .execute (← Json.fieldText? "instruction" fields)
        (some (← Json.fieldText? "condition" fields)) (← Span.ofFields? fields)
    else if tag = "Variable" then
      return .assign (← Json.fieldText? "key" fields) (← Json.fieldText? "value" fields)
        (← Span.ofFields? fields)
    else none
  | .array (.text tag :: items) =>
    if tag = "Instruction" then
      (Json.record? ["name", "action", "params", "span"] (.array items)).bind instructionOfFields?
    else if tag = "Condition" then
      (Json.record? ["name", "params", "span"] (.array items)).bind conditionOfFields?
    else none
  | _ => none

end Statement

namespace Program

def toJson (p : Program) : Json :=
  .object ([("statements", .array (p.statements.map Statement.toJson))] ++ p.span.toField)

def ofJson? (value : Json) : Option Program := do
  let fields ← value.record? ["statements", "span"]
  let items ← (← Json.lookup "statements" fields).items?
  return {
    statements := ← items.mapM Statement.ofJson?
    span := ← Span.ofFields? fields }

def encode (p : Program) : String := p.toJson.compact

def decode? (text : String) : Option Program := (Json.ofText? text).bind ofJson?

end Program
end SimpleFiles
