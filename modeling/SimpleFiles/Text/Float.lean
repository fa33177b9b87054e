import SimpleFiles.Text.Integer

/-! Floating-point numbers written with the fewest digits that read back, in
positional notation. -/
namespace SimpleFiles.Text

def binaryParts (x : Float) : Nat × Int :=
  let bits := x.toBits.toNat
  let field := (bits >>> 52) % 0x800
  let fraction := bits % 0x10000000000000
  if field = 0 then (fraction, -1074) else (fraction + 0x10000000000000, (field : Int) - 1075)

def quotient (x : Float) : Nat × Nat :=
  let (m, q) := binaryParts x
  if q < 0 then (m, 1 <<< q.natAbs) else (m <<< q.toNat, 1)

def tens (n : Nat) : Nat := Nat.pow 10 n

def decimalFloat (digits : Nat) (exponent : Int) : Float :=
  if exponent < 0 then .ofScientific digits true exponent.natAbs
  else .ofScientific (digits * tens exponent.toNat) false 0

/-- How many digits stand before the point; for small numbers how many zeros follow it, negated. -/
def decimalPoint (num den : Nat) : Int :=
  if num ≥ den then (toString (num / den)).length
  else
    let zeros := (toString (den / num)).length
    if num * tens zeros ≥ den then if num * tens (zeros - 1) ≥ den then 2 - zeros else 1 - zeros
    else -zeros

/-- The neighbour on the grid of so many digits that reads back, the nearer one if both do. -/
def onGrid? (x : Float) (num den : Nat) (point : Int) (count : Nat) : Option (Nat × Int) :=
  let exponent := point - count
  let (n, d) := if exponent < 0 then (num * tens exponent.natAbs, den)
    else (num, den * tens exponent.toNat)
  let low := n / d
  let readsBack := fun digits => (decimalFloat digits exponent).toBits == x.toBits
  match readsBack low, readsBack (low + 1) with
  | true, true => some (if 2 * (n - low * d) ≤ d then low else low + 1, exponent)
  | true, false => some (low, exponent)
  | false, true => some (low + 1, exponent)
  | false, false => none

def zeros (n : Nat) : String := .ofList (List.replicate n '0')

/-- A whole number times a power of ten, without an exponent. -/
def positional (digits : Nat) (exponent : Int) : String :=
  let text := toString digits
  if exponent ≥ 0 then text ++ zeros exponent.toNat
  else
    let places := exponent.natAbs
    let text := zeros (places + 1 - text.length) ++ text
    let cs := text.toList
    let whole := cs.take (cs.length - places)
    let fraction := ((cs.drop (cs.length - places)).reverse.dropWhile (· = '0')).reverse
    .ofList (if fraction = [] then whole else whole ++ '.' :: fraction)

def floatText (x : Float) : String :=
  if x.isNaN then "NaN"
  else
    let sign := if x.toBits.toNat ≥ 0x8000000000000000 then "-" else ""
    let x := x.abs
    if x.isInf then sign ++ "inf"
    else if x == 0 then sign ++ "0"
    else
      let (num, den) := quotient x
      let point := decimalPoint num den
      match (List.range 17).findSome? fun n => onGrid? x num den point (n + 1) with
      | some (digits, exponent) => sign ++ positional digits exponent
      | none => sign ++ positional (num / den) 0

end SimpleFiles.Text
