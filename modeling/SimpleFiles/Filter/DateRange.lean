import SimpleFiles.Filter.Error
import SimpleFiles.Text.Blank

/-! Ranges of time, written as a comparator and one or two dates. The ends
belong to the range. -/
namespace SimpleFiles

inductive DateRange where
  | before (limit : DateTime)
  | after (limit : DateTime)
  | between (low high : DateTime)
deriving DecidableEq, Repr, Inhabited

namespace DateRange

def contains : DateRange → DateTime → Bool
  | .before limit, t => t ≤ limit
  | .after limit, t => limit ≤ t
  | .between low high, t => low ≤ t && t ≤ high

def readDate (word : String) : Except FilterError DateTime :=
  (DateTime.read word).mapError (.invalidDate word)

def ofDates (comparator : String) (first : DateTime) (second : Option DateTime) :
    Except FilterError DateRange :=
  if comparator = "before" then .ok (.before first)
  else if comparator = "after" then .ok (.after first)
  else
    match second with
    | some second => .ok (.between first second)
    | none => .error .missingUpperDate

def ofWords : List String → Except FilterError DateRange
  | comparator :: first :: rest =>
    if rest.length > 1 then .error .dateArity
    else if comparator.map Char.toLower ∈ ["before", "after", "between"] then do
      let first ← readDate first
      let second ← rest.head?.mapM readDate
      ofDates (comparator.map Char.toLower) first second
    else .error (.unknownRange comparator)
  | _ => .error .dateArity

def read (text : String) : Except FilterError DateRange := ofWords (Text.words text)

end DateRange
end SimpleFiles
