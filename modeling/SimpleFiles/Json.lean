/-! JSON values and their two written forms: compact text, and text indented
by two spaces. Numbers keep the literal they were written with. -/
namespace SimpleFiles

inductive Json where
  | null
  | bool (value : Bool)
  | number (literal : String)
  | text (value : String)
  | array (items : List Json)
  | object (fields : List (String × Json))
deriving Repr, Inhabited

namespace Json

def nat (n : Nat) : Json := .number (toString n)

def texts (items : List String) : Json := .array (items.map .text)

/-- The last field of a name counts. -/
def lookup (name : String) : List (String × Json) → Option Json
  | [] => none
  | (key, value) :: rest => (lookup name rest).or (if key = name then some value else none)

def field? (name : String) : Json → Option Json
  | .object fields => lookup name fields
  | _ => none

def text? : Json → Option String
  | .text value => some value
  | _ => none

def bool? : Json → Option Bool
  | .bool value => some value
  | _ => none

def items? : Json → Option (List Json)
  | .array items => some items
  | _ => none

def digitsValue (digits : List Char) : Nat :=
  digits.foldl (fun value d => 10 * value + (d.toNat - '0'.toNat)) 0

/-- An unsigned integer; a sign, a fraction or an exponent disqualifies. -/
def nat? : Json → Option Nat
  | .number literal =>
    let digits := literal.toList
    if digits ≠ [] ∧ digits.all Char.isDigit then some (digitsValue digits) else none
  | _ => none

def hexDigit (n : Nat) : Char :=
  if n < 10 then Char.ofNat (48 + n) else Char.ofNat (87 + n)

/-- Quotes, backslashes and controls are escaped; all else stands for itself. -/
def escaped (c : Char) : List Char :=
  if c = '"' then ['\\', '"']
  else if c = '\\' then ['\\', '\\']
  else if c = '\x08' then ['\\', 'b']
  else if c = '\x0c' then ['\\', 'f']
  else if c = '\n' then ['\\', 'n']
  else if c = '\r' then ['\\', 'r']
  else if c = '\t' then ['\\', 't']
  else if c.toNat < 32 then
    ['\\', 'u', '0', '0', hexDigit (c.toNat / 16), hexDigit (c.toNat % 16)]
  else [c]

def quoted (s : String) : List Char :=
  '"' :: s.toList.flatMap escaped ++ ['"']

def literal : Json → List Char
  | .null => "null".toList
  | .bool true => "true".toList
  | .bool false => "false".toList
  | .number digits => digits.toList
  | .text value => quoted value
  | .array _ => "[]".toList
  | .object _ => "\x7b\x7d".toList

mutual

def chars : Json → List Char
  | .array (first :: rest) => '[' :: chars first ++ tailChars rest ++ [']']
  | .object ((key, value) :: rest) =>
    '\x7b' :: quoted key ++ ':' :: chars value ++ tailFields rest ++ ['\x7d']
  | leaf => literal leaf

def tailChars : List Json → List Char
  | [] => []
  | item :: rest => ',' :: chars item ++ tailChars rest

def tailFields : List (String × Json) → List Char
  | [] => []
  | (key, value) :: rest => ',' :: quoted key ++ ':' :: chars value ++ tailFields rest

end

def compact (value : Json) : String := .ofList value.chars

def newline (depth : Nat) : List Char := '\n' :: List.replicate (2 * depth) ' '

mutual

def lines (depth : Nat) : Json → List Char
  | .array (first :: rest) =>
    '[' :: newline (depth + 1) ++ lines (depth + 1) first ++ tailLines (depth + 1) rest
      ++ newline depth ++ [']']
  | .object ((key, value) :: rest) =>
    '\x7b' :: newline (depth + 1) ++ quoted key ++ ':' :: ' ' :: lines (depth + 1) value
      ++ tailFieldLines (depth + 1) rest ++ newline depth ++ ['\x7d']
  | leaf => literal leaf

def tailLines (depth : Nat) : List Json → List Char
  | [] => []
  | item :: rest => ',' :: newline depth ++ lines depth item ++ tailLines depth rest

def tailFieldLines (depth : Nat) : List (String × Json) → List Char
  | [] => []
  | (key, value) :: rest =>
    ',' :: newline depth ++ quoted key ++ ':' :: ' ' :: lines depth value
      ++ tailFieldLines depth rest

end

def indented (value : Json) : String := .ofList (value.lines 0)

end Json
end SimpleFiles
