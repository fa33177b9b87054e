import SimpleFiles.Source.Grammar

/-! The grammar as phrases. A phrase reads a piece of text and leaves a node for each
named part that it went through, with what the part covers and the nodes of its own
parts. -/
namespace SimpleFiles.Source

/-- What a node stands for: a named part of the grammar, or the inside of a quoted text. -/
inductive Tag where
  | part (symbol : Symbol)
  | quoted
deriving DecidableEq, Repr, Inhabited

namespace Tag

def title : Tag → String
  | .part symbol => symbol.title
  | .quoted => "string_inner"

def isKeyword : Tag → Bool
  | .part (.keyword _) => true
  | _ => false

end Tag

inductive Tree where
  | node (tag : Tag) (text : String) (span : Span) (inner : List Tree)
deriving Repr, Inhabited

namespace Tree

def tag : Tree → Tag
  | .node tag _ _ _ => tag

def text : Tree → String
  | .node _ text _ _ => text

def span : Tree → Span
  | .node _ _ span _ => span

def inner : Tree → List Tree
  | .node _ _ _ inner => inner

end Tree

/-- How the parts of a phrase hold together: blanks may stand between them, or none may,
or none may and they leave no nodes either. -/
inductive Binding where
  | loose
  | tight
  | solid
deriving DecidableEq, Repr, Inhabited

def Binding.skip : Binding → Cursor → Cursor
  | .loose, c => c.skipWhile Grammar.isSpace
  | _, c => c

inductive Phrase where
  | start
  | stop
  | literal (word : String)
  | char (test : Char → Bool)
  | both (first last : Phrase)
  | either (first last : Phrase)
  /-- As often as it can be read. -/
  | many (phrase : Phrase)
  /-- The phrase cannot be read here. -/
  | absent (phrase : Phrase)
  /-- A named part, with a binding of its own or with that of what is around it. -/
  | named (tag : Tag) (inside : Option Binding) (phrase : Phrase)

def Cursor.textTo (c next : Cursor) : String :=
  .ofList (c.rest.take (c.rest.length - next.rest.length))

namespace Phrase

/-- The nodes that a phrase leaves, and the cursor behind it. -/
def read : Phrase → Binding → Cursor → Option (List Tree × Cursor)
  | start, _, c => if c.position.offset = 0 then some ([], c) else none
  | stop, _, c => if c.atEnd then some ([], c) else none
  | literal word, _, c =>
    if word.toList.isPrefixOf c.rest then some ([], c.advance word.toList.length) else none
  | char test, _, c => if c.rest.head?.any test then some ([], c.advance 1) else none
  | both p q, b, c => do
    let (before, mid) ← p.read b c
    let (after, next) ← q.read b (b.skip mid)
    return (before ++ after, next)
  | either p q, b, c => (p.read b c).or (q.read b c)
  | many p, b, c =>
    match p.read b c with
    | none => some ([], c)
    | some (first, mid) =>
      let (others, last) := Parser.manyRun (fun c => p.read b (b.skip c)) mid
      some (first ++ others.flatten, last)
  | absent p, b, c => if (p.read b c).isSome then none else some ([], c)
  | named tag inside p, b, c => do
    let (inner, next) ← p.read (inside.getD b) c
    if b = .solid then return ([], next)
    return ([.node tag (c.textTo next) (c.position.spanTo next.position) inner], next)

def inOrder : Phrase → List Phrase → Phrase
  | p, [] => p
  | p, q :: ps => both p (inOrder q ps)

/-! The phrases of the grammar. -/

def leaf (symbol : Symbol) (p : Phrase) : Phrase := named (.part symbol) (some .solid) p

def rule (symbol : Symbol) (first : Phrase) (others : List Phrase) : Phrase :=
  named (.part symbol) none (inOrder first others)

def wordChar : Phrase := char Grammar.isWordChar

def keyword (word : String) : Phrase :=
  leaf (.keyword word) (both (literal word) (absent wordChar))

def name : Phrase := leaf .name (both wordChar (many wordChar))

def action : Phrase := leaf .action (both (literal ":") (both wordChar (many wordChar)))

def parameterKey : Phrase :=
  leaf .parameterKey (both (either (char Char.isAlpha) (literal "_")) (many wordChar))

def quoted : Phrase :=
  named .quoted (some .solid) (many (both (absent (literal "\"")) (char fun _ => true)))

def text : Phrase :=
  named (.part .text) (some .tight) (inOrder (literal "\"") [quoted, literal "\""])

def parameter : Phrase :=
  rule .parameter (literal "-->") [parameterKey, literal "=", text]

def declaration (symbol : Symbol) (word : String) : Phrase :=
  rule symbol (keyword word) [name, literal "->", action, many parameter, literal ";"]

def instruction : Phrase := declaration .instruction "INST"

def condition : Phrase := declaration .condition "COND"

def assignment : Phrase :=
  rule .variable (keyword "VAR") [parameterKey, literal "=", text, literal ";"]

def executeInstruction : Phrase :=
  rule .executeInstruction (keyword "EXEC_INST") [name, literal ";"]

def executeUnderCondition : Phrase :=
  rule .executeUnderCondition (keyword "EXEC_COND_MAP")
    [name, keyword "WITH_COND", name, literal ";"]

def statement : Phrase :=
  either instruction (either condition (either assignment
    (either executeUnderCondition executeInstruction)))

def program : Phrase :=
  rule .program start [keyword "BEGIN", many statement, keyword "END",
    rule .endOfInput stop []]

end Phrase

end SimpleFiles.Source
