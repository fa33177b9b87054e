import SimpleFiles.Text.Integer

/-! Moments of the proleptic Gregorian calendar, to the second, and dates
written as year, month, day, hour and minute. -/
namespace SimpleFiles

structure DateTime where
  year : Int
  month : Nat := 1
  day : Nat := 1
  hour : Nat := 0
  minute : Nat := 0
  second : Nat := 0
deriving DecidableEq, Repr, Inhabited

namespace DateTime

def key (t : DateTime) : List Int :=
  [t.year, t.month, t.day, t.hour, t.minute, t.second]

instance : LE DateTime := ⟨fun a b => ¬b.key < a.key⟩

instance (a b : DateTime) : Decidable (a ≤ b) := inferInstanceAs (Decidable (¬b.key < a.key))

def isLeapYear (year : Int) : Bool := year % 4 = 0 && (year % 100 ≠ 0 || year % 400 = 0)

def daysInMonth (year : Int) (month : Nat) : Nat :=
  if month = 2 then if isLeapYear year then 29 else 28
  else if month ∈ [4, 6, 9, 11] then 30
  else 31

/-- The day exists, in one of the years that dates may have. -/
def isValid (t : DateTime) : Bool :=
  -262143 ≤ t.year && t.year ≤ 262142 && t.day ≤ daysInMonth t.year t.month

def padded (width n : Nat) : String :=
  let digits := toString n
  String.ofList (List.replicate (width - digits.length) '0') ++ digits

/-- Years of up to four digits are written plainly, all others with a sign. -/
def yearText (year : Int) : String :=
  if 0 ≤ year ∧ year ≤ 9999 then padded 4 year.toNat
  else (if year < 0 then "-" else "+") ++ padded 4 year.natAbs

def text (t : DateTime) : String :=
  yearText t.year ++ "/" ++ padded 2 t.month ++ "/" ++ padded 2 t.day ++ "-" ++ padded 2 t.hour
    ++ ":" ++ padded 2 t.minute ++ ":" ++ padded 2 t.second

/-- The moment so many seconds after the start of 1970. Years begin in March within. -/
def ofSeconds (seconds : Int) : DateTime :=
  let days := seconds / 86400 + 719468
  let era := days / 146097
  let day := (days % 146097).toNat
  let year := (day - day / 1460 + day / 36524 - day / 146096) / 365
  let day := day - (365 * year + year / 4 - year / 100)
  let month := (5 * day + 2) / 153
  let clock := (seconds % 86400).toNat
  { year := year + 400 * era + (if month < 10 then 0 else 1)
    month := if month < 10 then month + 3 else month - 9
    day := day - (153 * month + 2) / 5 + 1
    hour := clock / 3600
    minute := clock / 60 % 60
    second := clock % 60 }

inductive Fault where
  | tooShort
  | tooLong
  | invalid
  | outOfRange
deriving DecidableEq, Repr, Inhabited

def Fault.message : Fault → String
  | .tooShort => "premature end of input"
  | .tooLong => "trailing input"
  | .invalid => "input contains invalid characters"
  | .outOfRange => "input is out of range"

def readNumber (width : Nat) (cs : List Char) : Except Fault (Nat × List Char) :=
  match cs with
  | [] => .error .tooShort
  | c :: _ =>
    if c.isDigit then
      let digits := (cs.take width).takeWhile Char.isDigit
      let value := Text.digitsValue digits
      if Word.holds64 value then .ok (value, cs.drop digits.length) else .error .outOfRange
    else .error .invalid

def readBetween (low high : Nat) (cs : List Char) : Except Fault (Nat × List Char) := do
  let (n, rest) ← readNumber 2 cs
  if low ≤ n ∧ n ≤ high then return (n, rest) else throw .outOfRange

/-- Four digits at most, unless a sign stands before them. -/
def readYear (cs : List Char) : Except Fault (Int × List Char) := do
  let (year, rest) ← match cs with
    | '-' :: rest => do
      let (n, rest) ← readNumber rest.length rest
      pure (-(n : Int), rest)
    | '+' :: rest => do
      let (n, rest) ← readNumber rest.length rest
      pure ((n : Int), rest)
    | _ => do
      let (n, rest) ← readNumber 4 cs
      pure ((n : Int), rest)
  if Word.holds32 year then return (year, rest) else throw .outOfRange

def readMark (mark : Char) : List Char → Except Fault (List Char)
  | [] => .error .tooShort
  | c :: rest => if c = mark then .ok rest else .error .invalid

/-- A date written as in 2024/01/31-23:59. -/
def read (text : String) : Except Fault DateTime := do
  let (year, rest) ← readYear text.toList
  let (month, rest) ← readBetween 1 12 (← readMark '/' rest)
  let (day, rest) ← readBetween 1 31 (← readMark '/' rest)
  let (hour, rest) ← readBetween 0 23 (← readMark '-' rest)
  let (minute, rest) ← readBetween 0 59 (← readMark ':' rest)
  if rest ≠ [] then throw .tooLong
  let moment : DateTime := { year, month, day, hour, minute }
  if moment.isValid then return moment else throw .outOfRange

end DateTime
end SimpleFiles
