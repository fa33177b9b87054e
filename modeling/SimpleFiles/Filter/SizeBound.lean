import SimpleFiles.Filter.Error
import SimpleFiles.Text.Blank

/-! Bounds on sizes, given in kilobytes with a comparator. The bound itself is
always admitted. -/
namespace SimpleFiles

inductive SizeBound where
  | atLeast (bytes : Nat)
  | atMost (bytes : Nat)
deriving DecidableEq, Repr, Inhabited

namespace SizeBound

def admits : SizeBound → Nat → Bool
  | .atLeast bytes, size => bytes ≤ size
  | .atMost bytes, size => size ≤ bytes

def bytes? (size : String) : Option Nat :=
  ((Text.word64? (Text.trim size)).map (1024 * ·)).filter (· < Word.count64)

def read (size comparator : Option String) : Except FilterError (Option SizeBound) :=
  match size, comparator with
  | none, none => .ok none
  | some _, none => .error .missingComparator
  | none, some _ => .error .missingSize
  | some size, some comparator =>
    match bytes? size with
    | none => .error .invalidSize
    | some bytes =>
      if comparator = "GT" then .ok (some (.atLeast bytes))
      else if comparator = "LT" then .ok (some (.atMost bytes))
      else .error (.unknownComparator comparator)

end SizeBound
end SimpleFiles
