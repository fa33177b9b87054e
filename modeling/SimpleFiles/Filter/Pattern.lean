import SimpleFiles.Filter.Error
import SimpleFiles.Filter.PropertyNames
import SimpleFiles.Text.Blank
import SimpleFiles.Text.Integer
import SimpleFiles.Text.LetterTable

/-! Regular expressions: whether a text is one, and how many capture groups it
has. Nothing is ever matched. Every step of a scan uses up a character, so the
length of the text bounds the scan. It is assumed that what is compiled from a
text is never too large: the size of a compiled expression is not counted. -/
namespace SimpleFiles.Pattern

/-- How deeply what stands side by side is nested: the present parts, the last of them apart, and
those before a bar or an operator. -/
structure Nesting where
  parts : Nat := 0
  earlier : Nat := 0
  last : Nat := 0
  before : Option Nat := none
deriving DecidableEq, Repr, Inhabited

namespace Nesting

def push (n : Nesting) (depth : Nat) : Nesting :=
  { n with parts := n.parts + 1, earlier := max n.earlier n.last, last := depth }

def repeated (n : Nesting) : Nesting := { n with last := n.last + 1 }

/-- One part counts as itself, and several parts as one level more. -/
def present (n : Nesting) : Nat := max n.earlier n.last + if n.parts < 2 then 0 else 1

def depth (n : Nesting) : Nat :=
  match n.before with
  | none => n.present
  | some before => max before n.present + 1

/-- Past a bar; all alternatives are on one level. -/
def branch (n : Nesting) : Nesting := { before := some (max (n.before.getD 0) n.present) }

/-- Past an operator; what stands before it is its left side. -/
def operate (n : Nesting) : Nesting := { before := some n.depth }

def limit : Nat := 250

end Nesting

/-- Whether blanks and comments are left out, and whether characters are scalars or bytes. -/
structure Mode where
  isSpaced : Bool := false
  isScalar : Bool := true
deriving DecidableEq, Repr, Inhabited

abbrev Reading := Except PatternFault

/-- Drops blanks, and comments that run from a hash to the end of a line. -/
def dropSpace : Bool → List Char → List Char
  | _, [] => []
  | inComment, c :: rest =>
    if inComment then dropSpace (c ≠ '\n') rest
    else if Text.isBlank c then dropSpace false rest
    else if c = '#' then dropSpace true rest
    else c :: rest

def Mode.skip (m : Mode) (cs : List Char) : List Char :=
  if m.isSpaced then dropSpace false cs else cs

def Mode.next (m : Mode) (cs : List Char) : List Char := m.skip (cs.drop 1)

def takeSkipping (m : Mode) (test : Char → Bool) : Nat → List Char → List Char × List Char
  | 0, cs => ([], cs)
  | fuel + 1, cs =>
    match cs with
    | [] => ([], [])
    | c :: _ =>
      if test c then
        let (taken, rest) := takeSkipping m test fuel (m.next cs)
        (c :: taken, rest)
      else ([], cs)

def Mode.take (m : Mode) (test : Char → Bool) (cs : List Char) : List Char × List Char :=
  takeSkipping m test cs.length cs

inductive Atom where
  | literal (c : Char) (isByte : Bool)
  | dot
  | assertion
  | shorthand (isNegated : Bool)
  | property (fault : Option PatternFault)
deriving DecidableEq, Repr, Inhabited

def isHexDigit (c : Char) : Bool :=
  c.isDigit || ('a' ≤ c && c ≤ 'f') || ('A' ≤ c && c ≤ 'F')

def hexDigitValue (c : Char) : Nat :=
  if c.isDigit then c.toNat - 48
  else if 'a' ≤ c then c.toNat - 87
  else c.toNat - 55

def hexValue (digits : List Char) : Nat :=
  digits.foldl (fun value d => 16 * value + hexDigitValue d) 0

def scalar? (n : Nat) : Option Char :=
  if n < 0xD800 ∨ (0xE000 ≤ n ∧ n < 0x110000) then some (Char.ofNat n) else none

def readHexDigits (m : Mode) : Nat → List Char → Reading (List Char × List Char)
  | 0, cs => .ok ([], cs)
  | n + 1, cs =>
    match cs with
    | [] => .error .escapeUnfinished
    | c :: _ =>
      if isHexDigit c then (readHexDigits m n (m.next cs)).map fun (ds, rest) => (c :: ds, rest)
      else .error .hexDigit

def hexLiteral (digits : List Char) (isByte : Bool) (rest : List Char) :
    Reading (Atom × List Char) :=
  match scalar? (hexValue digits) with
  | some c => .ok (.literal c isByte, rest)
  | none => .error .hexScalar

def readHex (m : Mode) (letter : Char) (cs : List Char) : Reading (Atom × List Char) :=
  match m.next cs with
  | [] => .error .escapeUnfinished
  | '\x7b' :: rest =>
    let (digits, rest) := m.take isHexDigit (m.skip rest)
    match rest with
    | [] => .error .escapeUnfinished
    | '\x7d' :: _ =>
      if digits = [] then .error .hexEmpty else hexLiteral digits false (m.next rest)
    | _ => .error .hexDigit
  | rest => do
    let width := if letter = 'x' then 2 else if letter = 'u' then 4 else 8
    let (digits, rest) ← readHexDigits m width rest
    hexLiteral digits (letter = 'x') rest

def propertyFault? (name : List Char) : Option PatternFault :=
  let plain := plainName name
  if (plain ∈ binaryProperties ∧ plain ∉ ["cf", "sc", "lc"]) ∨ plain ∈ generalCategories
    ∨ plain ∈ scripts then none
  else if plain ∈ vacantValues then some .propertyValueUnknown
  else some .propertyUnknown

def propertyValueFault? (name value : List Char) : Option PatternFault :=
  match propertyValues? (plainName name) with
  | some values => if plainName value ∈ values then none else some .propertyValueUnknown
  | none =>
    if plainName name ∈ binaryProperties ++ otherProperties then some .propertyValueUnknown
    else some .propertyUnknown

def splitAround? (mark : List Char) : List Char → Option (List Char × List Char)
  | [] => none
  | c :: rest =>
    if mark.isPrefixOf (c :: rest) then some ([], (c :: rest).drop mark.length)
    else (splitAround? mark rest).map fun (before, after) => (c :: before, after)

/-- A name alone, or a name and a value around an inequality, a colon or an equals sign. -/
def bracedPropertyFault? (content : List Char) : Option PatternFault :=
  match [['!', '='], [':'], ['=']].findSome? (splitAround? · content) with
  | some (name, value) => propertyValueFault? name value
  | none => propertyFault? content

def readProperty (m : Mode) (cs : List Char) : Reading (Atom × List Char) :=
  match m.next cs with
  | [] => .error .escapeUnfinished
  | '\x7b' :: rest =>
    let (content, rest) := m.take (· ≠ '\x7d') (m.skip rest)
    match rest with
    | [] => .error .escapeUnfinished
    | _ :: rest => .ok (.property (bracedPropertyFault? content), rest)
  | '\\' :: _ => .error .propertyInvalid
  | c :: rest => .ok (.property (propertyFault? [c]), m.skip rest)

/-- What may follow a word boundary in braces; braces that hold no word are left alone. -/
def readBoundary (m : Mode) (cs : List Char) : Reading (Atom × List Char) :=
  match cs with
  | '\x7b' :: _ =>
    match m.next cs with
    | [] => .error .boundaryUnfinished
    | first :: rest =>
      let isNameChar := fun (c : Char) => c.isAlpha || c = '-'
      if isNameChar first then
        let (name, rest) := m.take isNameChar (first :: rest)
        match rest with
        | '\x7d' :: rest =>
          if String.ofList name ∈ ["start", "end", "start-half", "end-half"] then
            .ok (.assertion, rest)
          else .error .boundaryUnrecognized
        | _ => .error .boundaryUnclosed
      else .ok (.assertion, cs)
  | _ => .ok (.assertion, cs)

def readEscape (m : Mode) (cs : List Char) : Reading (Atom × List Char) :=
  match cs with
  | [] => .error .escapeUnfinished
  | c :: rest =>
    if c.isDigit then .error .backreference
    else if c ∈ ['x', 'u', 'U'] then readHex m c cs
    else if c ∈ ['p', 'P'] then readProperty m cs
    else if c ∈ ['d', 's', 'w'] then .ok (.shorthand false, rest)
    else if c ∈ ['D', 'S', 'W'] then .ok (.shorthand true, rest)
    else if c ∈ ['a', 'f', 't', 'n', 'r', 'v'] then
      let code := match c with
        | 'a' => 7
        | 'f' => 12
        | 't' => 9
        | 'n' => 10
        | 'r' => 13
        | _ => 11
      .ok (.literal (Char.ofNat code) false, rest)
    else if c = 'b' then readBoundary m rest
    else if c ∈ ['A', 'z', 'B', '<', '>'] then .ok (.assertion, rest)
    else if c.isAlpha ∨ c.toNat ≥ 128 then .error .escapeUnrecognized
    else .ok (.literal c false, rest)

/-- Why an atom cannot stand in a pattern over scalars or over bytes. -/
def Atom.fault? (m : Mode) : Atom → Option PatternFault
  | .property fault => if m.isScalar then fault else some .scalarNotAllowed
  | .dot => if m.isScalar then none else some .bytesNotText
  | .shorthand isNegated => if m.isScalar || !isNegated then none else some .bytesNotText
  | .literal c isByte =>
    if !m.isScalar && isByte && c.toNat ≥ 128 then some .bytesNotText else none
  | .assertion => none

/-- The same within brackets, where a byte class holds no other scalars. -/
def Atom.classFault? (m : Mode) (a : Atom) : Option PatternFault :=
  (a.fault? m).or <|
    match a with
    | .literal c _ => if !m.isScalar && c.toNat ≥ 128 then some .scalarNotAllowed else none
    | _ => none

def readClassAtom (m : Mode) : List Char → Reading (Atom × List Char)
  | '\\' :: rest => readEscape m rest
  | c :: rest => .ok (.literal c false, rest)
  | [] => .error .classUnclosed

/-- The character after the next one and a run of blanks; a hash among the blanks is passed. -/
def peekFrom (isHashPassed : Bool) : List Char → Option Char
  | [] => none
  | c :: rest =>
    if Text.isBlank c then peekFrom isHashPassed rest
    else if c = '#' && !isHashPassed then peekFrom true rest
    else some c

def Mode.peek (m : Mode) (cs : List Char) : Option Char :=
  let after := cs.drop 1
  if m.isSpaced then (peekFrom false after).or after.head? else after.head?

def Atom.char? : Atom → Option Char
  | .literal c _ => some c
  | _ => none

def readClassItem (m : Mode) (cs : List Char) : Reading (Option PatternFault × List Char) := do
  let (first, rest) ← readClassAtom m cs
  let rest := m.skip rest
  match rest with
  | [] => throw .classUnclosed
  | c :: _ =>
    if c ≠ '-' || m.peek rest = some ']' || m.peek rest = some '-' then
      match first with
      | .assertion | .dot => throw .classEscape
      | _ => return (first.classFault? m, rest)
    else
      let rest := m.next rest
      if rest = [] then throw .classUnclosed
      let (last, rest) ← readClassAtom m rest
      match first.char?, last.char? with
      | some low, some high =>
        if low ≤ high then return ((first.classFault? m).or (last.classFault? m), rest)
        else throw .classRange
      | _, _ => throw .rangeBoundary

def asciiClasses : List String := ["alnum", "alpha", "ascii", "blank", "cntrl", "digit", "graph",
  "lower", "print", "punct", "space", "upper", "word", "xdigit"]

def readAsciiClass? (cs : List Char) : Option (Bool × List Char) :=
  match cs with
  | '[' :: ':' :: rest =>
    let (isNegated, rest) := match rest with
      | '^' :: rest => (true, rest)
      | _ => (false, rest)
    match rest.dropWhile (· ≠ ':') with
    | ':' :: ']' :: after =>
      if String.ofList (rest.takeWhile (· ≠ ':')) ∈ asciiClasses then some (isNegated, after)
      else none
    | _ => none
  | _ => none

/-- Hyphens that open a class stand for themselves. -/
def dropHyphens (m : Mode) : Nat → Nesting → List Char → Nesting × List Char
  | 0, n, cs => (n, cs)
  | fuel + 1, n, cs =>
    if cs.head? = some '-' then dropHyphens m fuel (n.push 0) (m.next cs) else (n, cs)

structure Bracket where
  isNegated : Bool
  inner : Nesting
deriving DecidableEq, Repr, Inhabited

def Bracket.push (b : Bracket) (depth : Nat) : Bracket := { b with inner := b.inner.push depth }

def Bracket.operate (b : Bracket) : Bracket := { b with inner := b.inner.operate }

/-- The opening of a class: bracket, negation, and the literals that may only stand there. -/
def readClassOpen (m : Mode) (cs : List Char) : Reading (Bracket × List Char) :=
  let rest := m.next cs
  let isNegated := rest.head? = some '^'
  let rest := if isNegated then m.next rest else rest
  let (inner, after) := dropHyphens m rest.length {} rest
  let (inner, after) :=
    if inner.parts = 0 ∧ after.head? = some ']' then (inner.push 0, m.next after)
    else (inner, after)
  if after = [] then .error .classUnclosed else .ok (⟨isNegated, inner⟩, after)

structure ClassReading where
  fault : Option PatternFault := none
  depth : Nat := 0
deriving DecidableEq, Repr, Inhabited

/-- The rest of a class, from within the innermost of its open brackets. -/
def readClassRest (m : Mode) (fault : Option PatternFault) :
    Nat → Bracket → List Bracket → List Char → Reading (ClassReading × List Char)
  | 0, _, _, _ => .error .classUnclosed
  | fuel + 1, bracket, outer, cs =>
    match m.skip cs with
    | [] => .error .classUnclosed
    | '[' :: rest =>
      match readAsciiClass? ('[' :: rest) with
      | some (isNegated, after) =>
        let fault := fault.or ((Atom.shorthand isNegated).fault? m)
        readClassRest m fault fuel (bracket.push 0) outer after
      | none => do
        let (opened, after) ← readClassOpen m ('[' :: rest)
        readClassRest m fault fuel opened (bracket :: outer) after
    | ']' :: rest =>
      let fault := fault.or ((Atom.shorthand bracket.isNegated).fault? m)
      let depth := bracket.inner.depth + 1
      match outer with
      | [] => .ok (⟨fault, depth⟩, rest)
      | around :: outer => readClassRest m fault fuel (around.push depth) outer rest
    | '&' :: '&' :: rest => readClassRest m fault fuel bracket.operate outer rest
    | '-' :: '-' :: rest => readClassRest m fault fuel bracket.operate outer rest
    | '~' :: '~' :: rest => readClassRest m fault fuel bracket.operate outer rest
    | rest => do
      let (itemFault, rest) ← readClassItem m rest
      readClassRest m (fault.or itemFault) fuel (bracket.push 0) outer rest

def readClass (m : Mode) (cs : List Char) : Reading (ClassReading × List Char) := do
  let (opened, rest) ← readClassOpen m cs
  readClassRest m none (rest.length + 1) opened [] rest

/-- A decimal number of 32 bits; blanks around it are passed over. -/
def readDecimal (m : Mode) (cs : List Char) : Reading Nat × List Char :=
  let (digits, rest) := m.take Char.isDigit (cs.dropWhile Text.isBlank)
  let rest := m.skip (rest.dropWhile Text.isBlank)
  let value := Text.digitsValue digits
  if digits = [] then (.error .countNotDecimal, rest)
  else if value < Word.count32 then (.ok value, rest)
  else (.error .decimalInvalid, rest)

def dropReluctance : List Char → List Char
  | '?' :: rest => rest
  | rest => rest

def closeCount (m : Mode) (low : Nat) (high : Option Nat) (cs : List Char) :
    Reading (Option Nat × List Char) :=
  match cs with
  | '\x7d' :: _ =>
    if high.all (low ≤ ·) then .ok (high, dropReluctance (m.next cs)) else .error .countInvalid
  | _ => .error .countUnclosed

def readCount (m : Mode) (cs : List Char) : Reading (Option Nat × List Char) := do
  let rest := m.next cs
  if rest = [] then throw .countUnclosed
  let (low, rest) := readDecimal m rest
  match rest with
  | [] => throw .countUnclosed
  | ',' :: _ =>
    let rest := m.next rest
    if rest = [] then throw .countUnclosed
    let low ← low
    if rest.head? = some '\x7d' then closeCount m low none rest
    else
      let (high, rest) := readDecimal m rest
      closeCount m low (some (← high)) rest
  | _ =>
    let count ← low
    closeCount m count (some count) rest

def isNameChar (isFirst : Bool) (c : Char) : Bool :=
  if isFirst then c = '_' || Text.isLetter c
  else c = '_' || c = '.' || c = '[' || c = ']' || Text.isLetterOrNumber c

def readName (cs : List Char) : Reading (String × List Char) :=
  let name := cs.takeWhile (· ≠ '>')
  let isGood := match name with
    | [] => true
    | first :: rest => isNameChar true first && rest.all (isNameChar false)
  if !isGood then .error .nameInvalid
  else
    match cs.dropWhile (· ≠ '>') with
    | [] => .error .nameUnclosed
    | _ :: rest => if name = [] then .error .nameEmpty else .ok (.ofList name, rest)

/-- Flags, up to the colon or parenthesis that ends them; a hyphen negates those after it. -/
def readFlags (seen : List Char) : List Char → Reading (List Char × List Char)
  | [] => .error .flagMissing
  | c :: rest =>
    if c = ':' ∨ c = ')' then
      if seen.head? = some '-' then .error .negationDangling else .ok (seen.reverse, c :: rest)
    else if c = '-' then
      if '-' ∈ seen then .error .negationRepeated else readFlags ('-' :: seen) rest
    else if c ∉ ['i', 'm', 's', 'U', 'u', 'R', 'x'] then .error .flagUnrecognized
    else if c ∈ seen then .error .flagDuplicate
    else readFlags (c :: seen) rest

def flagState? (flags : List Char) (flag : Char) : Option Bool :=
  if flag ∈ flags.takeWhile (· ≠ '-') then some true
  else if flag ∈ flags then some false
  else none

def Mode.apply (m : Mode) (flags : List Char) : Mode where
  isSpaced := (flagState? flags 'x').getD m.isSpaced
  isScalar := (flagState? flags 'u').getD m.isScalar

inductive Opening where
  | capture (name : Option String)
  | group (flags : List Char)
  | flags (flags : List Char)
deriving DecidableEq, Repr, Inhabited

def readOpening (m : Mode) (cs : List Char) : Reading (Opening × List Char) :=
  match m.skip cs with
  | '?' :: '=' :: _ | '?' :: '!' :: _ | '?' :: '<' :: '=' :: _ | '?' :: '<' :: '!' :: _ =>
    .error .lookAround
  | '?' :: 'P' :: '<' :: rest | '?' :: '<' :: rest =>
    if rest = [] then .error .nameUnclosed
    else (readName rest).map fun (name, rest) => (.capture (some name), rest)
  | ['?'] => .error .groupUnclosed
  | '?' :: rest => do
    let (flags, rest) ← readFlags [] rest
    match rest with
    | ')' :: rest => if flags = [] then throw .repetitionMissing else return (.flags flags, rest)
    | _ => return (.group flags, rest.drop 1)
  | rest => .ok (.capture none, rest)

structure Frame where
  mode : Mode
  kept : Nat
  nesting : Nesting
deriving DecidableEq, Repr, Inhabited

/-- What has been read: groups still open, whether something stands before that can be repeated,
names and number of captures, the last capture that is kept, now and without what can be repeated,
and the first fault that shows only once the whole text is well formed. -/
structure Scan where
  mode : Mode := {}
  pending : List Frame := []
  isRepeatable : Bool := false
  names : List String := []
  captures : Nat := 0
  kept : Nat := 0
  keptBefore : Nat := 0
  nesting : Nesting := {}
  fault : Option PatternFault := none
deriving DecidableEq, Repr, Inhabited

namespace Scan

def enter (s : Scan) (mode : Mode) : Scan :=
  { s with
    mode
    pending := ⟨s.mode, s.kept, s.nesting⟩ :: s.pending
    nesting := {}
    isRepeatable := false }

def capture (s : Scan) : Scan :=
  { s.enter s.mode with captures := s.captures + 1, kept := s.captures + 1 }

def opened (s : Scan) : Opening → Reading Scan
  | .capture none => .ok s.capture
  | .capture (some name) =>
    if name ∈ s.names then .error .nameDuplicate
    else .ok { s.capture with names := name :: s.names }
  | .group flags => .ok (s.enter (s.mode.apply flags))
  | .flags flags => .ok
    { s with mode := s.mode.apply flags, isRepeatable := false, nesting := s.nesting.push 0 }

def leave (s : Scan) (frame : Frame) (outer : List Frame) : Scan :=
  { s with
    mode := frame.mode
    pending := outer
    isRepeatable := true
    keptBefore := frame.kept
    nesting := frame.nesting.push (s.nesting.depth + 1) }

/-- What is repeated at most no times keeps none of its captures. -/
def repeated (s : Scan) (most : Option Nat) : Scan :=
  { s with
    kept := if most = some 0 then s.keptBefore else s.kept
    nesting := s.nesting.repeated }

def branch (s : Scan) : Scan := { s with isRepeatable := false, nesting := s.nesting.branch }

def readClass (s : Scan) (c : ClassReading) : Scan :=
  { s with
    isRepeatable := true
    keptBefore := s.kept
    nesting := s.nesting.push c.depth
    fault := s.fault.or c.fault }

def readAtom (s : Scan) (a : Atom) : Scan := s.readClass { fault := a.fault? s.mode }

end Scan

def scan : Nat → Scan → List Char → Reading Scan
  | 0, s, _ => .ok s
  | fuel + 1, s, cs =>
    match s.mode.skip cs with
    | [] => if s.pending = [] then .ok s else .error .groupUnclosed
    | c :: rest =>
      if c = '(' then do
        let (opening, rest) ← readOpening s.mode rest
        scan fuel (← s.opened opening) rest
      else if c = ')' then
        match s.pending with
        | [] => .error .groupUnopened
        | frame :: outer => scan fuel (s.leave frame outer) rest
      else if c = '|' then scan fuel s.branch rest
      else if c = '[' then do
        let (read, rest) ← readClass s.mode (c :: rest)
        scan fuel (s.readClass read) rest
      else if c = '?' ∨ c = '*' ∨ c = '+' then
        if s.isRepeatable then scan fuel (s.repeated none) (dropReluctance rest)
        else .error .repetitionMissing
      else if c = '\x7b' then
        if s.isRepeatable then do
          let (most, rest) ← readCount s.mode (c :: rest)
          scan fuel (s.repeated most) rest
        else .error .repetitionMissing
      else if c = '\\' then do
        let (atom, rest) ← readEscape s.mode rest
        scan fuel (s.readAtom atom) rest
      else if c = '.' then scan fuel (s.readAtom .dot) rest
      else scan fuel (s.readAtom (if c = '^' ∨ c = '$' then .assertion else .literal c false)) rest

/-- The number of the last capture group of a regular expression that is kept. -/
def groups (pattern : String) : Reading Nat :=
  match scan (pattern.toList.length + 1) {} pattern.toList with
  | .error fault => .error fault
  | .ok s =>
    if Nesting.limit < s.nesting.depth then .error .nestingTooDeep
    else
      match s.fault with
      | some fault => .error fault
      | none => .ok s.kept

end SimpleFiles.Pattern
