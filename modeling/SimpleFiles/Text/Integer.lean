import SimpleFiles.Word

/-! Decimal integers: ASCII digits after an optional sign, within given bounds. -/
namespace SimpleFiles.Text

def digitValue (c : Char) : Nat := c.toNat - '0'.toNat

def digitsValue (digits : List Char) : Nat :=
  digits.foldl (fun value d => 10 * value + digitValue d) 0

def digits? (cs : List Char) : Option Nat :=
  if cs ≠ [] ∧ cs.all Char.isDigit then some (digitsValue cs) else none

/-- A sign may stand before the digits. -/
def int? : List Char → Option Int
  | '-' :: rest => (digits? rest).map fun n => -(n : Int)
  | '+' :: rest => (digits? rest).map Int.ofNat
  | cs => (digits? cs).map Int.ofNat

/-- Only a plus may stand before the digits. -/
def nat? : List Char → Option Nat
  | '+' :: rest => digits? rest
  | cs => digits? cs

def int32? (s : String) : Option Int :=
  (int? s.toList).filter Word.holds32

def int64? (s : String) : Option Int :=
  (int? s.toList).filter Word.holds64

def word64? (s : String) : Option Nat :=
  (nat? s.toList).filter (· < Word.count64)

end SimpleFiles.Text
