import SimpleFiles.FileName
import SimpleFiles.Json.Reader
import SimpleFiles.Text.Bytes
import SimpleFiles.Toml.Reader

/-! The formats of configuration documents. The extension of a file tells its format. TOML is
always among the formats, and JSON is read as well; others may come with a library. -/
namespace SimpleFiles.Config

/-- The extensions of the files of a format, and what a document sets, in order. -/
structure Format where
  extensions : List String
  read? : String → Option (List (String × Toml.Value))

namespace Format

def toml : Format := ⟨["toml"], Toml.read?⟩

/-- An integer of 64 bits, or else a float, which must not be too large. -/
def numberOf? (literal : String) : Option Toml.Value :=
  let cs := literal.toList
  match (Text.int64? literal).filter fun _ => literal ≠ "-0" with
  | some n => some (.integer n)
  | none =>
    let isWhole := cs.all fun c => c.isDigit || c = '-'
    ((Toml.float? (if isWhole then cs ++ ".0".toList else cs)).filter (!·.isInf)).map .float

mutual

/-- No number is too large, and nothing is nested deeper than allowed. -/
def isSound (depth : Nat) : Json → Bool
  | .number literal => (numberOf? literal).isSome
  | .array items => 0 < depth && areSound (depth - 1) items
  | .object fields => 0 < depth && areSoundFields (depth - 1) fields
  | .null | .bool _ | .text _ => true

def areSound (depth : Nat) : List Json → Bool
  | [] => true
  | item :: rest => isSound depth item && areSound depth rest

def areSoundFields (depth : Nat) : List (String × Json) → Bool
  | [] => true
  | (_, value) :: rest => isSound depth value && areSoundFields depth rest

end

/-- No setting has a null or an array for its value. -/
def valueOf? : Json → Option Toml.Value
  | .bool value => some (.bool value)
  | .number literal => numberOf? literal
  | .text value => some (.text value)
  | .null | .array _ => some .array
  | .object fields => some (.table fields.isEmpty)

def json : Format where
  extensions := ["json"]
  read? := fun text =>
    match (Json.ofText? text).filter (isSound 127) with
    | some (.object fields) => fields.mapM fun (name, value) => (valueOf? value).map (name, ·)
    | _ => none

end Format

/-- The known formats in the order in which their extensions are tried. No other format has the
extension of TOML. -/
structure Formats where
  all : List Format
  toml : .toml ∈ all
  apart : ∀ f ∈ all, "toml" ∈ f.extensions → f = .toml

/-- The formats that are read without a library. -/
def Formats.own : Formats where
  all := [.toml, .json]
  toml := .head _
  apart := by
    intro f known named
    simp only [List.mem_cons, List.not_mem_nil, or_false] at known
    rcases known with rfl | rfl
    · rfl
    · simp [Format.json] at named

/-- What follows the last dot of a name, with something before it. -/
def extension? (name : String) : Option String :=
  match FileName.aroundLastDot? name.toList with
  | some (_ :: _, extension) => some (.ofList extension)
  | _ => none

def Formats.named? (formats : Formats) (name : String) : Option Format := do
  let extension ← extension? name
  formats.all.find? (extension ∈ ·.extensions)

end SimpleFiles.Config
