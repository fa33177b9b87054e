import SimpleFiles.Program
import SimpleFiles.Source.Parser

/-! The grammar of programs. Blanks may stand before, between and after tokens;
a word ends where no further word character follows. -/
namespace SimpleFiles.Source

structure Misdeclared where
  name : String
  action : String
  span : Span
deriving DecidableEq, Repr, Inhabited

namespace Grammar

open SimpleFiles.Source.Parser

def isSpace (c : Char) : Bool := c = ' ' || c = '\t' || c = '\r' || c = '\n'

def isWordChar (c : Char) : Bool := c.isAlphanum || c = '_'

def isKeyStart (c : Char) : Bool := c.isAlpha || c = '_'

def space : Parser Unit := silent fun c => some ((), c.skipWhile isSpace)

/-- A token, with the blanks before it. -/
def token (p : Parser α) : Parser α := do
  space
  p

def keyword (word : String) : Parser Unit :=
  named (.keyword word) do
    literal word
    notNext isWordChar

def name : Parser String := named .name (takeSome isWordChar)

def action : Parser String :=
  named .action do
    literal ":"
    takeSome isWordChar

def parameterKey : Parser String :=
  named .parameterKey (silent fun c =>
    if c.rest.head?.any isKeyStart then (takeSome isWordChar).run c else none)

def text : Parser String :=
  named .text do
    literal "\""
    let value ← takeWhile (· ≠ '"')
    literal "\""
    return value

def parameter : Parser Parameter := do
  let ((key, value), span) ← spanned (named .parameter do
    literal "-->"
    let key ← token parameterKey
    token (literal "=")
    let value ← token text
    return (key, value))
  return ⟨key, value, span⟩

def instruction : Parser Statement := do
  let ((name, word, params), span) ← spanned (named .instruction do
    keyword "INST"
    let name ← token name
    token (literal "->")
    let word ← token action
    let params ← many (token parameter)
    token (literal ";")
    return (name, word, params))
  return .instruction ⟨name, .ofKeyword (":" ++ word), params, span⟩

def condition : Parser (Except Misdeclared Statement) := do
  let ((name, (word, wordSpan), params), span) ← spanned (named .condition do
    keyword "COND"
    let name ← token name
    token (literal "->")
    let word ← token (spanned action)
    let params ← many (token parameter)
    token (literal ";")
    return (name, word, params))
  if word = "condition" then return .ok (.condition ⟨name, params, span⟩)
  else return .error ⟨name, ":" ++ word, wordSpan⟩

def assignment : Parser Statement := do
  let ((key, value), span) ← spanned (named .variable do
    keyword "VAR"
    let key ← token parameterKey
    token (literal "=")
    let value ← token text
    token (literal ";")
    return (key, value))
  return .assign key value span

def executeInstruction : Parser Statement := do
  let (name, span) ← spanned (named .executeInstruction do
    keyword "EXEC_INST"
    let name ← token name
    token (literal ";")
    return name)
  return .execute name none span

def executeUnderCondition : Parser Statement := do
  let ((name, under), span) ← spanned (named .executeUnderCondition do
    keyword "EXEC_COND_MAP"
    let name ← token name
    token (keyword "WITH_COND")
    let under ← token Grammar.name
    token (literal ";")
    return (name, under))
  return .execute name (some under) span

def statement : Parser (Except Misdeclared Statement) :=
  (Except.ok <$> instruction).orElse <|
  condition.orElse <|
  (Except.ok <$> assignment).orElse <|
  (Except.ok <$> executeUnderCondition).orElse <|
  Except.ok <$> executeInstruction

def program : Parser (List (Except Misdeclared Statement)) :=
  named .program do
    token (keyword "BEGIN")
    let statements ← many (token statement)
    token (keyword "END")
    token (named .endOfInput atEnd)
    return statements

end Grammar
end SimpleFiles.Source
