import SimpleFiles.Text.Case

/-! File names: the last dot, what stands around it, and changes of case that
leave the extension alone. -/
namespace SimpleFiles.FileName

def aroundLastDot? (name : List Char) : Option (List Char × List Char) :=
  match name.reverse.dropWhile (· ≠ '.') with
  | [] => none
  | _ :: before => some (before.reverse, (name.reverse.takeWhile (· ≠ '.')).reverse)

/-- Stem and extension. The extension keeps its dot, and a dot at the end starts none. -/
def split (name : List Char) : List Char × List Char :=
  match aroundLastDot? name with
  | some (_, []) | none => (name, [])
  | some (stem, after) => (stem, '.' :: after)

/-- What stands after the last dot, or the whole name when there is none. -/
def extension (name : String) : String :=
  match aroundLastDot? name.toList with
  | some (_, after) => .ofList after
  | none => name

end FileName

inductive CaseMode where
  | upper
  | lower
deriving DecidableEq, Repr, Inhabited

namespace CaseMode

/-- Every other text means lower case. -/
def ofText (text : String) : CaseMode := if text = "upper_case" then .upper else .lower

def apply : CaseMode → String → String
  | .upper => Text.upper
  | .lower => Text.lower

end CaseMode

/-- The new name of an entry: its stem changes case, its extension does not. -/
def FileName.renamed (mode : CaseMode) (name : String) : String :=
  let (stem, extension) := split name.toList
  mode.apply (.ofList stem) ++ .ofList extension

end SimpleFiles
