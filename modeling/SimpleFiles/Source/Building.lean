import SimpleFiles.Source
import SimpleFiles.Source.Phrase

/-! Programs built from trees. The parts of a statement are taken one after the other
from its node, and whatever a tree might lack is refused. -/
namespace SimpleFiles.Source

inductive BuildFault where
  | noTree
  /-- A part that is not there, and the span of the node that should have it. -/
  | missing (what : String) (span : Span)
  | noStatement (tag : Tag) (span : Span)
  | misdeclared (what : Misdeclared)
deriving DecidableEq, Repr, Inhabited

namespace BuildFault

def message : BuildFault → String
  | .noTree => "Empty parse result"
  | .missing what _ => "Expected " ++ what
  | .noStatement tag _ => "Unexpected statement rule: " ++ tag.title
  | .misdeclared what =>
    "Condition " ++ what.name ++ " must declare :condition, got: " ++ what.action

def span? : BuildFault → Option Span
  | .noTree => none
  | .missing _ span => some span
  | .noStatement _ span => some span
  | .misdeclared what => some what.span

end BuildFault

inductive StagedFault where
  | unexpected (source : String) (what : Unexpected)
  | unbuilt (why : BuildFault)
deriving DecidableEq, Repr, Inhabited

namespace StagedFault

def message : StagedFault → String
  | .unexpected source what => what.message source
  | .unbuilt why => why.message

def span? : StagedFault → Option Span
  | .unexpected source what => some (what.span source)
  | .unbuilt why => why.span?

end StagedFault

namespace Tree

/-- The first node that is no keyword, and those behind it. -/
def nextPart (what : String) (span : Span) (parts : List Tree) :
    Except BuildFault (Tree × List Tree) :=
  match parts.dropWhile (·.tag.isKeyword) with
  | [] => .error (.missing what span)
  | part :: rest => .ok (part, rest)

def quotedText (t : Tree) : String := (t.inner.head?.map text).getD ""

def buildParameter (t : Tree) : Except BuildFault Parameter := do
  let (key, rest) ← nextPart "parameter key" t.span t.inner
  let (value, _) ← nextPart "parameter value" t.span rest
  return ⟨key.text, value.quotedText, t.span⟩

def buildParameters (parts : List Tree) : Except BuildFault (List Parameter) :=
  (parts.filter fun t => t.tag = .part .parameter).mapM buildParameter

def buildInstruction (t : Tree) : Except BuildFault Statement := do
  let (name, rest) ← nextPart "instruction name" t.span t.inner
  let (action, rest) ← nextPart "action" t.span rest
  let params ← buildParameters rest
  return .instruction ⟨name.text, .ofKeyword action.text, params, t.span⟩

def buildCondition (t : Tree) : Except BuildFault Statement := do
  let (name, rest) ← nextPart "condition name" t.span t.inner
  let (action, rest) ← nextPart "action" t.span rest
  if action.text = ":condition" then
    let params ← buildParameters rest
    return .condition ⟨name.text, params, t.span⟩
  else throw (.misdeclared ⟨name.text, action.text, action.span⟩)

def buildAssignment (t : Tree) : Except BuildFault Statement := do
  let (key, rest) ← nextPart "variable name" t.span t.inner
  let (value, _) ← nextPart "variable value" t.span rest
  return .assign key.text value.quotedText t.span

def buildExecuteInstruction (t : Tree) : Except BuildFault Statement := do
  let (name, _) ← nextPart "instruction name" t.span t.inner
  return .execute name.text none t.span

def buildExecuteUnderCondition (t : Tree) : Except BuildFault Statement := do
  let (name, rest) ← nextPart "instruction name" t.span t.inner
  let (under, _) ← nextPart "condition name" t.span rest
  return .execute name.text (some under.text) t.span

def buildStatement (t : Tree) : Except BuildFault Statement :=
  match t.tag with
  | .part .instruction => t.buildInstruction
  | .part .condition => t.buildCondition
  | .part .variable => t.buildAssignment
  | .part .executeInstruction => t.buildExecuteInstruction
  | .part .executeUnderCondition => t.buildExecuteUnderCondition
  | tag => .error (.noStatement tag t.span)

def isItem (t : Tree) : Bool := !t.tag.isKeyword && t.tag ≠ .part .endOfInput

def buildProgram : List Tree → Except BuildFault Program
  | [] => .error .noTree
  | t :: _ => do
    let statements ← (t.inner.filter isItem).mapM buildStatement
    return ⟨statements, t.span⟩

end Tree

def treesOf (source : String) : Option (List Tree) :=
  (Phrase.program.read .loose (start source)).map Prod.fst

def parseStaged (source : String) : Except StagedFault Program :=
  match treesOf source with
  | none => .error (.unexpected source (unexpected source))
  | some trees => (Tree.buildProgram trees).mapError .unbuilt

end SimpleFiles.Source
