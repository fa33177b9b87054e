import SimpleFiles.Text.Float

/-! Values of TOML documents. What arrays and tables hold is left out; of a table
it is known whether it holds anything. -/
namespace SimpleFiles.Toml

inductive Value where
  | text (value : String)
  | bool (value : Bool)
  | integer (value : Int)
  | float (value : Float)
  | moment (text : String)
  | array
  | table (isEmpty : Bool)
deriving Inhabited

def boolOfText? (text : String) : Option Bool :=
  let word := text.map Char.toLower
  if word ∈ ["1", "true", "on", "yes"] then some true
  else if word ∈ ["0", "false", "off", "no"] then some false
  else none

namespace Value

def isEmptyTable : Value → Bool
  | table true => true
  | _ => false

/-- Numbers other than zero are true. -/
def toBool? : Value → Option Bool
  | .bool value => some value
  | .integer value => some (value ≠ 0)
  | .float value => some (value != 0)
  | .text value => boolOfText? value
  | .moment written => boolOfText? written
  | .array | .table _ => none

def toText? : Value → Option String
  | .text value => some value
  | .bool value => some (if value then "true" else "false")
  | .integer value => some (toString value)
  | .float value => some (Text.floatText value)
  | .moment written => some written
  | .array | .table _ => none

end Value
end SimpleFiles.Toml
