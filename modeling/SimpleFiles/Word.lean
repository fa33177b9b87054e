/-! Words of fixed width: how many there are, which integers they hold, and sums that fit none. -/
namespace SimpleFiles.Word

def count32 : Nat := 0x100000000

def count64 : Nat := 0x10000000000000000

def holds32 (n : Int) : Bool := -0x80000000 ≤ n && n < 0x80000000

def holds64 (n : Int) : Bool := -0x8000000000000000 ≤ n && n < 0x8000000000000000

/-- What becomes of a sum that fits no word: a program is built to stop there, or to go on with
what is left of the sum. -/
inductive Overflow where
  | stops
  | wraps
deriving DecidableEq, Repr, Inhabited

def succ64? (o : Overflow) (n : Nat) : Option Nat :=
  if n + 1 < count64 then some (n + 1)
  else
    match o with
    | .stops => none
    | .wraps => some ((n + 1) % count64)

theorem succ64?_of_lt (o : Overflow) {n : Nat} (h : n + 1 < count64) :
    succ64? o n = some (n + 1) := by
  unfold succ64?
  exact if_pos h

end SimpleFiles.Word
