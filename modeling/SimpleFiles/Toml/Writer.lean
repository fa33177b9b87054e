/-! Writing texts as TOML strings. A text with quotes or backslashes is written
literally if it can be; one with line feeds takes several lines. -/
namespace SimpleFiles.Toml

def isControl (c : Char) : Bool := c.toNat < 32 || c.toNat = 127

def longestQuotes : Nat → List Char → Nat
  | _, [] => 0
  | run, c :: rest =>
    if c = '\'' then max (run + 1) (longestQuotes (run + 1) rest) else longestQuotes 0 rest

/-- Some character would have to be escaped, and nothing stands in the way of a literal. -/
def prefersLiteral (cs : List Char) : Bool :=
  cs.any (fun c => c = '"' || c = '\\')
    && cs.all (fun c => c = '\t' || c = '\n' || !isControl c)
    && longestQuotes 0 cs < 3 && cs.getLast? ≠ some '\''

def upperHexDigit (n : Nat) : Char :=
  if n < 10 then Char.ofNat (48 + n) else Char.ofNat (55 + n)

def escaped (c : Char) : List Char :=
  if c = '\x08' then ['\\', 'b']
  else if c = '\t' then ['\\', 't']
  else if c = '\x0c' then ['\\', 'f']
  else if c = '\r' then ['\\', 'r']
  else if c = '"' then ['\\', '"']
  else if c = '\\' then ['\\', '\\']
  else if c ≠ '\n' ∧ isControl c then
    ['\\', 'u', '0', '0', upperHexDigit (c.toNat / 16), upperHexDigit (c.toNat % 16)]
  else [c]

def writeText (s : String) : String :=
  let cs := s.toList
  let hasLines := '\n' ∈ cs
  if prefersLiteral cs then
    if hasLines then "'''\n" ++ s ++ "'''"
    else if '\'' ∈ cs then "'''" ++ s ++ "'''"
    else "'" ++ s ++ "'"
  else
    let body := String.ofList (cs.flatMap escaped)
    if hasLines then "\"\"\"\n" ++ body ++ "\"\"\"" else "\"" ++ body ++ "\""

def writeBool (b : Bool) : String := if b then "true" else "false"

end SimpleFiles.Toml
