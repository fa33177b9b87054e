import SimpleFiles.Text.Integer

/-! Name templates. A template without a dollar sign names one entry; one with
an iterator names as many as are asked for, by numbers in equal steps. -/
namespace SimpleFiles

inductive NameError where
  | countWithoutConstruct
  | invalidConstruct
deriving DecidableEq, Repr, Inhabited

def NameError.message : NameError → String
  | .countWithoutConstruct => "Count is more than 1. Missing dynamic construct for name"
  | .invalidConstruct => "Error resolving dynamic construct"

/-- A name with a number between two texts. -/
structure NameTemplate where
  front : String
  start : Int
  step : Int
  back : String
deriving DecidableEq, Repr, Inhabited

namespace NameTemplate

def isFrontChar (c : Char) : Bool := c.isAlpha || c = '_' || c = ' '

def isNumberChar (c : Char) : Bool := c.isDigit || c = '+' || c = '-'

/-- Letters, then at most one dot with letters after it. -/
def isBack (cs : List Char) : Bool :=
  match cs.dropWhile Char.isAlpha with
  | [] => true
  | '.' :: rest => rest ≠ [] && rest.all Char.isAlpha
  | _ => false

/-- A number after a colon, or the default where there is no colon. -/
def readBound (default : Int) : List Char → Option (Int × List Char)
  | ':' :: rest =>
    (Text.int64? (.ofList (rest.takeWhile isNumberChar))).map (·, rest.dropWhile isNumberChar)
  | cs => some (default, cs)

def opening : List Char := "$\x7bITERATOR".toList

def read? (template : List Char) : Option NameTemplate := do
  let front := template.takeWhile isFrontChar
  let rest := template.dropWhile isFrontChar
  if front ≠ [] ∧ opening.isPrefixOf rest then
    let (start, rest) ← readBound 0 (rest.drop opening.length)
    let (step, rest) ← readBound 1 rest
    match rest with
    | '\x7d' :: back =>
      if isBack back then some ⟨.ofList front, start, step, .ofList back⟩ else none
    | _ => none
  else none

def number (t : NameTemplate) (i : Nat) : Int := t.start + i * t.step

def name (t : NameTemplate) (i : Nat) : String := t.front ++ toString (t.number i) ++ t.back

/-- The numbers differ and stay within 64 bits; the last of them is the farthest. -/
def admits (t : NameTemplate) (count : Nat) : Bool :=
  !(t.step = 0 && count > 1)
    && (count = 0 ||
      Word.holds64 ((count - 1 : Nat) * t.step) && Word.holds64 (t.number (count - 1)))

def names (template : String) (count : Nat) : Except NameError (List String) :=
  if '$' ∈ template.toList then
    match read? template.toList with
    | none => .error .invalidConstruct
    | some t =>
      if t.admits count then .ok ((List.range count).map t.name) else .error .invalidConstruct
  else if count > 1 then .error .countWithoutConstruct
  else .ok (List.replicate count template)

end NameTemplate
end SimpleFiles
