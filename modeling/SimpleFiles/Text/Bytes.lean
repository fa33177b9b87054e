/-! Bytes as text. Where bytes write no character, each run of them that might have begun one is
read as one replacement character. -/
namespace SimpleFiles.Text

def followers? (first : Nat) : Option Nat :=
  if first < 0x80 then some 0
  else if 0xC2 ≤ first ∧ first < 0xE0 then some 1
  else if 0xE0 ≤ first ∧ first < 0xF0 then some 2
  else if 0xF0 ≤ first ∧ first < 0xF5 then some 3
  else none

def isFollower (byte : Nat) : Bool := 0x80 ≤ byte && byte < 0xC0

/-- Some second bytes would write what fewer bytes write, a surrogate, or too great a number. -/
def isSecond (first byte : Nat) : Bool :=
  if first = 0xE0 then 0xA0 ≤ byte && byte < 0xC0
  else if first = 0xED then 0x80 ≤ byte && byte < 0xA0
  else if first = 0xF0 then 0x90 ≤ byte && byte < 0xC0
  else if first = 0xF4 then 0x80 ≤ byte && byte < 0x90
  else isFollower byte

def followers (first : Nat) : List Nat → List Nat
  | [] => []
  | second :: rest => if isSecond first second then second :: rest.takeWhile isFollower else []

def charOf (first : Nat) (rest : List Nat) : Char :=
  let mark := match rest.length with
    | 0 => 0
    | 1 => 0xC0
    | 2 => 0xE0
    | _ => 0xF0
  .ofNat (rest.foldl (fun value byte => 64 * value + (byte - 0x80)) (first - mark))

def readChars : Nat → List Nat → List Char
  | 0, _ | _, [] => []
  | fuel + 1, first :: rest =>
    match followers? first with
    | none => '\uFFFD' :: readChars fuel rest
    | some count =>
      let run := followers first (rest.take count)
      let c := if run.length = count then charOf first run else '\uFFFD'
      c :: readChars fuel (rest.drop run.length)

/-- The text that bytes write, without a mark of their order at its start. -/
def ofBytes (bytes : ByteArray) : String :=
  let text := match String.fromUTF8? bytes with
    | some text => text
    | none => .ofList (readChars bytes.size (bytes.toList.map UInt8.toNat))
  match text.toList with
  | '\uFEFF' :: rest => .ofList rest
  | _ => text

end SimpleFiles.Text
