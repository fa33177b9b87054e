import SimpleFiles.Text.Integer
import SimpleFiles.DateTime
import SimpleFiles.Toml.Value

/-! Reading TOML documents: what they define at their top level, provided that
the whole document is well formed and defines nothing twice. -/
namespace SimpleFiles.Toml

abbrev Read (α : Type) := List Char → Option (α × List Char)

def isSpace (c : Char) : Bool := c = ' ' || c = '\t'

def dropSpace (cs : List Char) : List Char := cs.dropWhile isSpace

def isPlain (c : Char) : Bool := c = '\t' || (32 ≤ c.toNat && c.toNat ≠ 127)

def dropNewline? : List Char → Option (List Char)
  | '\n' :: rest => some rest
  | '\r' :: '\n' :: rest => some rest
  | _ => none

/-- Past a comment, if there is one, up to the end of its line. -/
def dropComment : List Char → List Char
  | '#' :: rest => rest.dropWhile isPlain
  | cs => cs

def dropLines : Nat → List Char → List Char
  | 0, cs => cs
  | fuel + 1, cs =>
    match dropNewline? (dropComment (dropSpace cs)) with
    | some rest => dropLines fuel rest
    | none => dropComment (dropSpace cs)

def dropBlank (cs : List Char) : List Char := dropLines cs.length cs

def hexDigit? (c : Char) : Option Nat :=
  if c.isDigit then some (c.toNat - 48)
  else if 'a' ≤ c ∧ c ≤ 'f' then some (c.toNat - 87)
  else if 'A' ≤ c ∧ c ≤ 'F' then some (c.toNat - 55)
  else none

def hexChar? (digits : List Char) (width : Nat) : Option Char := do
  let values ← digits.mapM hexDigit?
  let n := values.foldl (fun n d => 16 * n + d) 0
  if digits.length = width ∧ (n < 0xD800 ∨ (0xE000 ≤ n ∧ n < 0x110000)) then some (Char.ofNat n)
  else none

def readEscape : Read Char
  | 'b' :: rest => some ('\x08', rest)
  | 't' :: rest => some ('\t', rest)
  | 'n' :: rest => some ('\n', rest)
  | 'f' :: rest => some ('\x0c', rest)
  | 'r' :: rest => some ('\r', rest)
  | '"' :: rest => some ('"', rest)
  | '\\' :: rest => some ('\\', rest)
  | 'u' :: rest => (hexChar? (rest.take 4) 4).map (·, rest.drop 4)
  | 'U' :: rest => (hexChar? (rest.take 8) 8).map (·, rest.drop 8)
  | _ => none

/-- Past a backslash at the end of a line: line ends and blanks are left out. -/
def dropContinuation? (cs : List Char) : Option (List Char) :=
  (dropNewline? (dropSpace cs)).map fun rest =>
    rest.dropWhile fun c => isSpace c || c = '\n' || c = '\r'

def readLine (quote : Char) : Nat → Read (List Char)
  | 0, _ => none
  | fuel + 1, cs =>
    match cs with
    | [] => none
    | c :: rest =>
      if c = quote then some ([], rest)
      else if c = '\\' ∧ quote = '"' then do
        let (c, rest) ← readEscape rest
        let (text, rest) ← readLine quote fuel rest
        return (c :: text, rest)
      else if isPlain c then (readLine quote fuel rest).map fun (text, rest) => (c :: text, rest)
      else none

/-- The rest of a string over several lines; up to two quotes may stand before its end. -/
def readParagraph (quote : Char) : Nat → Read (List Char)
  | 0, _ => none
  | fuel + 1, cs =>
    if [quote, quote, quote].isPrefixOf cs then
      let rest := cs.drop 3
      let extra := ((rest.take 2).takeWhile (· = quote)).length
      some (List.replicate extra quote, rest.drop extra)
    else
      match cs with
      | [] => none
      | c :: rest =>
        if c = '\\' ∧ quote = '"' then
          match dropContinuation? rest with
          | some rest => readParagraph quote fuel rest
          | none => do
            let (c, rest) ← readEscape rest
            let (text, rest) ← readParagraph quote fuel rest
            return (c :: text, rest)
        else
          match dropNewline? cs with
          | some rest =>
            (readParagraph quote fuel rest).map fun (text, rest) => ('\n' :: text, rest)
          | none =>
            if isPlain c then
              (readParagraph quote fuel rest).map fun (text, rest) => (c :: text, rest)
            else none

/-- A string of either kind of quote; a line end right after three quotes is left out. -/
def readString (quote : Char) (cs : List Char) : Option (String × List Char) :=
  let read := if [quote, quote, quote].isPrefixOf cs then
      let rest := cs.drop 3
      readParagraph quote (cs.length + 1) ((dropNewline? rest).getD rest)
    else readLine quote (cs.length + 1) (cs.drop 1)
  read.map fun (text, rest) => (.ofList text, rest)

def isBare (c : Char) : Bool := c.isAlphanum || c = '_' || c = '-'

def readKeyPart (cs : List Char) : Option (String × List Char) :=
  let quoted := fun quote rest =>
    (readLine quote (cs.length + 1) rest).map fun (text, rest) => (String.ofList text, rest)
  match cs with
  | '"' :: rest => quoted '"' rest
  | '\'' :: rest => quoted '\'' rest
  | _ =>
    let name := cs.takeWhile isBare
    if name = [] then none else some (.ofList name, cs.dropWhile isBare)

/-- Names with dots between them, and blanks around the dots. -/
def readKeyParts : Nat → Read (List String)
  | 0, _ => none
  | fuel + 1, cs => do
    let (part, rest) ← readKeyPart (dropSpace cs)
    match dropSpace rest with
    | '.' :: rest =>
      let (parts, rest) ← readKeyParts fuel rest
      return (part :: parts, rest)
    | rest => return ([part], rest)

def readKey (cs : List Char) : Option (List String × List Char) := readKeyParts (cs.length + 1) cs

def digits? (isDigit : Char → Bool) (cs : List Char) : Option (List Char) :=
  let groups := cs.splitOn '_'
  if groups.all (fun g => g ≠ [] && g.all isDigit) then some groups.flatten else none

def unsigned : List Char → Bool × List Char
  | '-' :: rest => (true, rest)
  | '+' :: rest => (false, rest)
  | cs => (false, cs)

def hasNoLeadingZero (digits : List Char) : Bool :=
  digits.head? ≠ some '0' || digits.length = 1

def inBase? (base : Nat) (cs : List Char) : Option Int := do
  let digits ← digits? (fun c => (hexDigit? c).any (· < base)) cs
  let values ← digits.mapM hexDigit?
  return (values.foldl (fun n d => base * n + d) 0 : Nat)

def integer? (cs : List Char) : Option Int :=
  let value := match cs with
    | '0' :: 'x' :: rest => inBase? 16 rest
    | '0' :: 'o' :: rest => inBase? 8 rest
    | '0' :: 'b' :: rest => inBase? 2 rest
    | _ => do
      let (isNegative, rest) := unsigned cs
      let digits ← digits? Char.isDigit rest
      if hasNoLeadingZero digits then
        let n := Text.digitsValue digits
        some (if isNegative then -(n : Int) else n)
      else none
  value.filter Word.holds64

def signedFloat (isNegative : Bool) (x : Float) : Float := if isNegative then -x else x

def exponent? : List Char → Option Int
  | [] => some 0
  | _ :: rest => do
    let (isNegative, rest) := unsigned rest
    let digits ← digits? Char.isDigit rest
    return if isNegative then -(Text.digitsValue digits : Int) else Text.digitsValue digits

/-- Whole digits, then a fraction or an exponent or both; too large a number is refused, unless
it is negative. -/
def float? (cs : List Char) : Option Float := do
  let (isNegative, rest) := unsigned cs
  if rest = "inf".toList then return signedFloat isNegative (1.0 / 0.0)
  if rest = "nan".toList then return signedFloat isNegative (0.0 / 0.0)
  let isExponent := fun c => c = 'e' || c = 'E'
  let mantissa := rest.takeWhile (!isExponent ·)
  let power := rest.dropWhile (!isExponent ·)
  let whole ← digits? Char.isDigit (mantissa.takeWhile (· ≠ '.'))
  let fraction ← match mantissa.dropWhile (· ≠ '.') with
    | [] => if power = [] then none else some []
    | _ :: rest => digits? Char.isDigit rest
  let exponent ← exponent? power
  if !hasNoLeadingZero whole then none
  else
    let digits := Text.digitsValue (whole ++ fraction)
    let shift := exponent - fraction.length
    let x := if digits = 0 ∨ shift < -5000 - (whole.length : Int) then 0.0
      else if shift > 5000 then 1.0 / 0.0
      else Text.decimalFloat digits shift
    if x.isInf && !isNegative then none else some (signedFloat isNegative x)

def isDate (cs : List Char) : Bool :=
  match cs with
  | [y₁, y₂, y₃, y₄, '-', m₁, m₂, '-', d₁, d₂] =>
    let digits := [y₁, y₂, y₃, y₄, m₁, m₂, d₁, d₂]
    let year := Text.digitsValue [y₁, y₂, y₃, y₄]
    let month := Text.digitsValue [m₁, m₂]
    let day := Text.digitsValue [d₁, d₂]
    digits.all Char.isDigit && 1 ≤ month && month ≤ 12 && 1 ≤ day
      && day ≤ DateTime.daysInMonth year month
  | _ => false

/-- A fraction of a second keeps nine digits at most and no zeros at its end. -/
def fractionText (digits : List Char) : List Char :=
  match ((digits.take 9).reverse.dropWhile (· = '0')).reverse with
  | [] => []
  | kept => '.' :: kept

def readTime : Read (List Char)
  | h₁ :: h₂ :: ':' :: m₁ :: m₂ :: ':' :: s₁ :: s₂ :: rest =>
    let digits := [h₁, h₂, m₁, m₂, s₁, s₂]
    if digits.all Char.isDigit && Text.digitsValue [h₁, h₂] ≤ 23
        && Text.digitsValue [m₁, m₂] ≤ 59 && Text.digitsValue [s₁, s₂] ≤ 60 then
      let clock := [h₁, h₂, ':', m₁, m₂, ':', s₁, s₂]
      match rest with
      | '.' :: rest =>
        let fraction := rest.takeWhile Char.isDigit
        if fraction = [] then none
        else some (clock ++ fractionText fraction, rest.dropWhile Char.isDigit)
      | _ => some (clock, rest)
    else none
  | _ => none

def offset? : List Char → Option (List Char)
  | [] => some []
  | ['z'] | ['Z'] => some ['Z']
  | [sign, h₁, h₂, ':', m₁, m₂] =>
    if (sign = '+' || sign = '-') && [h₁, h₂, m₁, m₂].all Char.isDigit
        && Text.digitsValue [h₁, h₂] ≤ 23 && Text.digitsValue [m₁, m₂] ≤ 59 then
      let isZero := Text.digitsValue [h₁, h₂, m₁, m₂] = 0
      some [if isZero then '+' else sign, h₁, h₂, ':', m₁, m₂]
    else none
  | _ => none

def moment? (cs : List Char) : Option String :=
  let date := cs.take 10
  if isDate date then
    match cs.drop 10 with
    | [] => some (.ofList date)
    | mark :: rest =>
      if mark = 'T' ∨ mark = 't' ∨ mark = ' ' then do
        let (time, rest) ← readTime rest
        let offset ← offset? rest
        return .ofList (date ++ 'T' :: time ++ offset)
      else none
  else
    match readTime cs with
    | some (time, []) => some (.ofList time)
    | _ => none

def isTokenChar (c : Char) : Bool :=
  c.isAlphanum || c = '+' || c = '-' || c = '_' || c = '.' || c = ':'

/-- The characters of a value without quotes; one blank may stand between date and time. -/
def readToken (cs : List Char) : List Char × List Char :=
  let first := cs.takeWhile isTokenChar
  let rest := cs.dropWhile isTokenChar
  match rest with
  | ' ' :: after =>
    if isDate first ∧ (readTime after).isSome then
      (first ++ ' ' :: after.takeWhile isTokenChar, after.dropWhile isTokenChar)
    else (first, rest)
  | _ => (first, rest)

def scalar? (token : List Char) : Option Value :=
  if token = "true".toList then some (.bool true)
  else if token = "false".toList then some (.bool false)
  else
    ((integer? token).map Value.integer).or <|
    ((float? token).map Value.float).or <|
    (moment? token).map Value.moment

inductive Kind where
  | value
  | implicit
  | dotted
  | header
  | list
deriving DecidableEq, Repr, Inhabited

/-- What has been defined, by path. -/
abbrev Defined := List (List String × Kind)

/-- Passes down a path, defining the tables that are missing. Dotted keys cannot
pass through tables that have headers of their own. -/
def descend (isDotted : Bool) (base : List String) : List String → Defined → Option Defined
  | [], defined => some defined
  | part :: rest, defined =>
    let path := base ++ [part]
    match defined.lookup path with
    | none => descend isDotted path rest
        ((path, if isDotted then .dotted else .implicit) :: defined)
    | some .value => none
    | some .header => if isDotted then none else descend isDotted path rest defined
    | some _ => descend isDotted path rest defined

def defineValue (base key : List String) (defined : Defined) : Option Defined := do
  let defined ← descend true base key.dropLast defined
  let table := base ++ key.dropLast
  if key.length > 1 ∧ defined.lookup table ≠ some .dotted then none
  else if (defined.lookup (base ++ key)).isSome then none
  else some ((base ++ key, .value) :: defined)

def defineTable (path : List String) (defined : Defined) : Option Defined := do
  let defined ← descend false [] path.dropLast defined
  match defined.lookup path with
  | none | some .implicit => some ((path, .header) :: defined.filter (·.1 ≠ path))
  | some _ => none

/-- A new table of a list of tables; what the last one defined is forgotten. -/
def defineListItem (path : List String) (defined : Defined) : Option Defined := do
  let defined ← descend false [] path.dropLast defined
  match defined.lookup path with
  | none | some .list =>
    some ((path, .list) :: defined.filter (!path.isPrefixOf ·.1))
  | some _ => none

def readItems (item : Read Value) : Nat → List Char → Option (List Char)
  | 0, _ => none
  | fuel + 1, cs =>
    match dropBlank cs with
    | ']' :: rest => some rest
    | cs => do
      let (_, rest) ← item cs
      match dropBlank rest with
      | ',' :: rest => readItems item fuel rest
      | ']' :: rest => some rest
      | _ => none

def readPair (item : Read Value) (cs : List Char) : Option ((List String × Value) × List Char) := do
  let (key, rest) ← readKey cs
  match dropSpace rest with
  | '=' :: rest =>
    let (value, rest) ← item (dropSpace rest)
    return ((key, value), rest)
  | _ => none

def readPairs (item : Read Value) : Nat → Defined → List Char → Option (List Char)
  | 0, _, _ => none
  | fuel + 1, defined, cs => do
    let ((key, _), rest) ← readPair item cs
    let defined ← defineValue [] key defined
    match dropSpace rest with
    | ',' :: rest => readPairs item fuel defined rest
    | '\x7d' :: rest => some rest
    | _ => none

/-- A value, nested no deeper than given. -/
def readValue : Nat → Read Value
  | 0, _ => none
  | depth + 1, cs =>
    match cs with
    | '"' :: _ => (readString '"' cs).map fun (text, rest) => (.text text, rest)
    | '\'' :: _ => (readString '\'' cs).map fun (text, rest) => (.text text, rest)
    | '[' :: rest => (readItems (readValue depth) (cs.length + 1) rest).map (.array, ·)
    | '\x7b' :: rest =>
      match dropSpace rest with
      | '\x7d' :: rest => some (.table true, rest)
      | rest => (readPairs (readValue depth) (cs.length + 1) [] rest).map (.table false, ·)
    | _ =>
      let (token, rest) := readToken cs
      (scalar? token).map (·, rest)

def maxDepth : Nat := 80

/-- Past the end of a line, with nothing but a comment before it. -/
def dropLineEnd? (cs : List Char) : Option (List Char) :=
  match dropComment (dropSpace cs) with
  | [] => some []
  | cs => dropNewline? cs

/-- The table that values are defined in, what is defined, and the values at the top level. -/
structure Document where
  current : List String := []
  defined : Defined := []
  values : List (String × Value) := []

def readHeader (d : Document) (cs : List Char) : Option (Document × List Char) :=
  match cs with
  | '[' :: rest => do
    let (path, rest) ← readKey rest
    match dropSpace rest with
    | ']' :: ']' :: rest =>
      return ({ d with current := path, defined := ← defineListItem path d.defined }, rest)
    | _ => none
  | _ => do
    let (path, rest) ← readKey cs
    match dropSpace rest with
    | ']' :: rest =>
      return ({ d with current := path, defined := ← defineTable path d.defined }, rest)
    | _ => none

def readEntry (d : Document) (cs : List Char) : Option (Document × List Char) := do
  let ((key, value), rest) ← readPair (readValue maxDepth) cs
  let defined ← defineValue d.current key d.defined
  let values := match d.current ++ key with
    | [name] => d.values ++ [(name, value)]
    | _ => d.values
  return ({ d with defined, values }, rest)

def readDocument : Nat → Document → List Char → Option Document
  | 0, _, _ => none
  | fuel + 1, d, cs =>
    match dropBlank cs with
    | [] => some d
    | '[' :: rest => do
      let (d, rest) ← readHeader d rest
      readDocument fuel d (← dropLineEnd? rest)
    | cs => do
      let (d, rest) ← readEntry d cs
      readDocument fuel d (← dropLineEnd? rest)

def read? (text : String) : Option (List (String × Value)) := do
  let cs := match text.toList with
    | '\uFEFF' :: rest => rest
    | cs => cs
  let d ← readDocument (cs.length + 1) {} cs
  let tables := d.defined.filterMap fun
    | (_, .value) => none
    | ([name], .list) => some (name, Value.array)
    | ([name], _) => some (name, Value.table !(d.defined.any fun (p, _) => [name].isPrefixOf p
        && p ≠ [name]))
    | _ => none
  return tables ++ d.values

end SimpleFiles.Toml
