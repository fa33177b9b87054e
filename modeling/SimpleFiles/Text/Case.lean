import SimpleFiles.Text.CaseTable
import SimpleFiles.Text.Ranges

/-! Upper and lower case of whole texts. A mapping may lengthen a text, and a
sigma at the end of a word has a lower case of its own. -/
namespace SimpleFiles.Text

def CaseRun.map? (run : CaseRun) (n : Nat) : Option Nat :=
  if run.first ≤ n ∧ n ≤ run.last ∧ (n - run.first) % run.step = 0 then
    some (run.image + (n - run.first))
  else none

def mapChar (runs : List CaseRun) (expansions : List (Nat × List Nat)) (c : Char) : List Char :=
  match expansions.lookup c.toNat with
  | some image => image.map Char.ofNat
  | none => [((runs.findSome? fun run => run.map? c.toNat).map Char.ofNat).getD c]

def upperChar (c : Char) : List Char := mapChar upperRuns upperExpansions c

def lowerChar (c : Char) : List Char := mapChar lowerRuns lowerExpansions c

/-- The first character that is not ignorable is a letter with case. -/
def casedNext (cs : List Char) : Bool :=
  (cs.dropWhile (inRanges caseIgnorableRanges)).head?.any (inRanges casedRanges)

/-- Lower case of a text; what stands before it is given in reverse. -/
def lowerFrom (before : List Char) : List Char → List Char
  | [] => []
  | c :: rest =>
    (if c = 'Σ' then [if casedNext before && !casedNext rest then 'ς' else 'σ']
      else lowerChar c) ++ lowerFrom (c :: before) rest

def upper (s : String) : String := .ofList (s.toList.flatMap upperChar)

def lower (s : String) : String := .ofList (lowerFrom [] s.toList)

/-- Equality of texts up to the case of ASCII letters. -/
def sameAsciiCase (a b : String) : Bool := a.map Char.toLower == b.map Char.toLower

end SimpleFiles.Text
