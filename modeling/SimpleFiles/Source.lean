import SimpleFiles.Source.Grammar

/-! Source text is read into a program, or refused with the place and the cause. -/
namespace SimpleFiles.Source

structure Unexpected where
  offset : Nat
  expected : List Symbol
deriving DecidableEq, Repr, Inhabited

/-- The text does not follow the grammar, or it does and a condition is misdeclared. -/
inductive Fault where
  | unexpected (source : String) (what : Unexpected)
  | misdeclared (what : Misdeclared)
deriving DecidableEq, Repr, Inhabited

def start (source : String) : Cursor := ⟨source.toList, {}⟩

def unexpected (source : String) : Unexpected :=
  let attempts := Grammar.program.note (start source) {}
  ⟨attempts.offset, attempts.expected⟩

def parse (source : String) : Except Fault Program :=
  match Grammar.program.run (start source) with
  | none => .error (.unexpected source (unexpected source))
  | some (items, stop) =>
    match items.mapM id with
    | .error what => .error (.misdeclared what)
    | .ok statements => .ok ⟨statements, Position.spanTo {} stop.position⟩

def splitAt (offset : Nat) : List Char → List Char × List Char
  | [] => ([], [])
  | c :: rest =>
    if offset = 0 then ([], c :: rest)
    else
      let (before, after) := splitAt (offset - c.utf8Size) rest
      (c :: before, after)

/-- Line and column, counted from one; a carriage return with a line feed ends one line. -/
def lineColumn : List Char → Nat × Nat → Nat × Nat
  | [], place => place
  | '\r' :: '\n' :: rest, (line, _) => lineColumn rest (line + 1, 1)
  | '\n' :: rest, (line, _) => lineColumn rest (line + 1, 1)
  | _ :: rest, (line, column) => lineColumn rest (line, column + 1)

def lineAround (before after : List Char) : List Char :=
  (before.reverse.takeWhile (· ≠ '\n')).reverse ++ after.takeWhile (· ≠ '\n')
    ++ (after.dropWhile (· ≠ '\n')).take 1

/-- The line as shown: its end is made visible where the place itself is a line end. -/
def shownLine (before after : List Char) : List Char :=
  let line := lineAround before after
  if after.head? = some '\r' ∨ after.head? = some '\n' then
    line.map fun c => if c = '\r' then '␍' else if c = '\n' then '␊' else c
  else line.filter fun c => c ≠ '\r' && c ≠ '\n'

def oneOf : List String → String
  | [] => "unknown parsing error"
  | [a] => a
  | [a, b] => a ++ " or " ++ b
  | a :: rest => ", ".intercalate (a :: rest.dropLast) ++ ", or " ++ rest.getLast?.getD ""

namespace Unexpected

def place (u : Unexpected) (source : String) : Nat × Nat :=
  lineColumn (splitAt u.offset source.toList).1 (1, 1)

def message (u : Unexpected) (source : String) : String :=
  let (before, after) := splitAt u.offset source.toList
  let (line, column) := u.place source
  let number := toString line
  let margin := String.ofList (List.replicate number.length ' ')
  let shown := shownLine before after
  let marker := (shown.take (column - 1)).map fun c => if c = '\t' then '\t' else ' '
  "\n".intercalate [
    margin ++ "--> " ++ number ++ ":" ++ toString column,
    margin ++ " |",
    number ++ " | " ++ .ofList shown,
    margin ++ " | " ++ .ofList marker ++ "^---",
    margin ++ " |",
    margin ++ " = expected " ++ oneOf (u.expected.map Symbol.title)]

def span (u : Unexpected) (source : String) : Span :=
  let (line, column) := u.place source
  ⟨0, 0, line - 1, column - 1, line - 1, column⟩

end Unexpected

namespace Fault

def message : Fault → String
  | .unexpected source what => what.message source
  | .misdeclared what =>
    "Condition " ++ what.name ++ " must declare :condition, got: " ++ what.action

def span : Fault → Span
  | .unexpected source what => what.span source
  | .misdeclared what => what.span

end Fault
end SimpleFiles.Source
