import SimpleFiles.Word

/-! A span is a stretch of source text: two byte offsets, each with its line
and column counted from zero. The zero span stands for no place at all. -/
namespace SimpleFiles

structure Span where
  start : Nat := 0
  stop : Nat := 0
  startLine : Nat := 0
  startColumn : Nat := 0
  stopLine : Nat := 0
  stopColumn : Nat := 0
deriving DecidableEq, Repr, Inhabited

namespace Span

def zero : Span := {}

/-- The least span that covers both; on a tie the first one gives the place. -/
def merge (a b : Span) : Span where
  start := min a.start b.start
  stop := max a.stop b.stop
  startLine := if a.start ≤ b.start then a.startLine else b.startLine
  startColumn := if a.start ≤ b.start then a.startColumn else b.startColumn
  stopLine := if a.stop ≥ b.stop then a.stopLine else b.stopLine
  stopColumn := if a.stop ≥ b.stop then a.stopColumn else b.stopColumn

def mergeAll : List Span → Span
  | [] => zero
  | first :: rest => rest.foldl merge first

def FitsWords (s : Span) : Prop :=
  ∀ n ∈ [s.start, s.stop, s.startLine, s.startColumn, s.stopLine, s.stopColumn], n < Word.count64

end Span
end SimpleFiles
