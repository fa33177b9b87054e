import SimpleFiles.Json

/-! Reading JSON text. Each reader returns the value and what is left of the
text; nesting is bounded by the length of the text. -/
namespace SimpleFiles.Json

def skipBlank (cs : List Char) : List Char :=
  cs.dropWhile fun c => c = ' ' || c = '\t' || c = '\n' || c = '\r'

def hexValue? (c : Char) : Option Nat :=
  if '0' ≤ c ∧ c ≤ '9' then some (c.toNat - 48)
  else if 'a' ≤ c ∧ c ≤ 'f' then some (c.toNat - 87)
  else if 'A' ≤ c ∧ c ≤ 'F' then some (c.toNat - 55)
  else none

def hexUnit? (a b c d : Char) : Option Nat := do
  let a ← hexValue? a
  let b ← hexValue? b
  let c ← hexValue? c
  let d ← hexValue? d
  return 4096 * a + 256 * b + 16 * c + d

def unescaped? : Char → Option Char
  | '"' => some '"'
  | '\\' => some '\\'
  | '/' => some '/'
  | 'b' => some '\x08'
  | 'f' => some '\x0c'
  | 'n' => some '\n'
  | 'r' => some '\r'
  | 't' => some '\t'
  | _ => none

/-- Reads up to the closing quote. Two escaped surrogates denote one character. -/
def readText : List Char → Option (List Char × List Char)
  | [] => none
  | c :: rest =>
    if c = '"' then some ([], rest)
    else if c = '\\' then
      match rest with
      | [] => none
      | e :: after =>
        if e = 'u' then
          match after with
          | h₁ :: h₂ :: h₃ :: h₄ :: after =>
            match hexUnit? h₁ h₂ h₃ h₄ with
            | none => none
            | some unit =>
              if 0xD800 ≤ unit ∧ unit < 0xDC00 then
                match after with
                | '\\' :: 'u' :: l₁ :: l₂ :: l₃ :: l₄ :: after =>
                  match hexUnit? l₁ l₂ l₃ l₄ with
                  | none => none
                  | some low =>
                    if 0xDC00 ≤ low ∧ low < 0xE000 then
                      (readText after).map fun (cs, left) =>
                        (Char.ofNat (0x10000 + 1024 * (unit - 0xD800) + (low - 0xDC00)) :: cs, left)
                    else none
                | _ => none
              else if 0xDC00 ≤ unit ∧ unit < 0xE000 then none
              else (readText after).map fun (cs, left) => (Char.ofNat unit :: cs, left)
          | _ => none
        else
          match unescaped? e with
          | none => none
          | some c => (readText after).map fun (cs, left) => (c :: cs, left)
    else if c.toNat < 32 then none
    else (readText rest).map fun (cs, left) => (c :: cs, left)

/-- The lexical form of a number: sign, integer without leading zeros, fraction, exponent. -/
def isNumber (literal : List Char) : Bool :=
  let unsigned := match literal with
    | '-' :: rest => rest
    | _ => literal
  let whole := unsigned.takeWhile Char.isDigit
  let rest := unsigned.dropWhile Char.isDigit
  let (fraction, rest) := match rest with
    | '.' :: rest => (some (rest.takeWhile Char.isDigit), rest.dropWhile Char.isDigit)
    | _ => (none, rest)
  let (exponent, rest) := match rest with
    | 'e' :: '+' :: rest | 'e' :: '-' :: rest | 'E' :: '+' :: rest | 'E' :: '-' :: rest
    | 'e' :: rest | 'E' :: rest =>
      (some (rest.takeWhile Char.isDigit), rest.dropWhile Char.isDigit)
    | _ => (none, rest)
  whole ≠ [] && (whole.head? ≠ some '0' || whole.length = 1)
    && fraction ≠ some [] && exponent ≠ some [] && rest = []

def isNumberChar (c : Char) : Bool :=
  c.isDigit || c = '-' || c = '+' || c = '.' || c = 'e' || c = 'E'

def dropWord? (word cs : List Char) : Option (List Char) :=
  if word.isPrefixOf cs then some (cs.drop word.length) else none

def readLeaf (cs : List Char) : Option (Json × List Char) :=
  ((dropWord? "null".toList cs).map (.null, ·)).or <|
  ((dropWord? "true".toList cs).map (.bool true, ·)).or <|
  ((dropWord? "false".toList cs).map (.bool false, ·)).or <|
  let digits := cs.takeWhile isNumberChar
  if isNumber digits then some (.number (.ofList digits), cs.dropWhile isNumberChar) else none

mutual

def readValue : Nat → List Char → Option (Json × List Char)
  | 0, _ => none
  | depth + 1, cs =>
    match skipBlank cs with
    | '"' :: rest => (readText rest).map fun (cs, left) => (.text (.ofList cs), left)
    | '[' :: rest =>
      match skipBlank rest with
      | ']' :: left => some (.array [], left)
      | _ => do
        let (first, rest) ← readValue depth rest
        let (items, left) ← readItems depth rest
        return (.array (first :: items), left)
    | '\x7b' :: rest =>
      match skipBlank rest with
      | '\x7d' :: left => some (.object [], left)
      | _ => do
        let (first, rest) ← readField depth rest
        let (fields, left) ← readFields depth rest
        return (.object (first :: fields), left)
    | cs => readLeaf cs

def readItems : Nat → List Char → Option (List Json × List Char)
  | 0, _ => none
  | depth + 1, cs =>
    match skipBlank cs with
    | ']' :: left => some ([], left)
    | ',' :: rest => do
      let (item, rest) ← readValue depth rest
      let (items, left) ← readItems depth rest
      return (item :: items, left)
    | _ => none

def readField : Nat → List Char → Option ((String × Json) × List Char)
  | 0, _ => none
  | depth + 1, cs =>
    match skipBlank cs with
    | '"' :: rest => do
      let (key, rest) ← readText rest
      match skipBlank rest with
      | ':' :: rest => do
        let (value, left) ← readValue depth rest
        return ((.ofList key, value), left)
      | _ => none
    | _ => none

def readFields : Nat → List Char → Option (List (String × Json) × List Char)
  | 0, _ => none
  | depth + 1, cs =>
    match skipBlank cs with
    | '\x7d' :: left => some ([], left)
    | ',' :: rest => do
      let (field, rest) ← readField depth rest
      let (fields, left) ← readFields depth rest
      return (field :: fields, left)
    | _ => none

end

def ofText? (text : String) : Option Json :=
  match readValue (2 * text.toList.length + 2) text.toList with
  | some (value, left) => if skipBlank left = [] then some value else none
  | none => none

end SimpleFiles.Json
