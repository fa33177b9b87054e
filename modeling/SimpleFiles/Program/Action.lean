import SimpleFiles.Text.Blank

/-! Actions and the keywords that denote them. -/
namespace SimpleFiles

inductive Action where
  | createFile
  | createFolder
  | group
  | rename
  | unsupported (word : String)
deriving DecidableEq, Repr, Inhabited

namespace Action

def word : Action → String
  | .createFile => "create_file"
  | .createFolder => "create_folder"
  | .group => "group"
  | .rename => "rename"
  | .unsupported word => word

def ofWord (word : String) : Action :=
  if word = "create_file" then .createFile
  else if word = "create_folder" then .createFolder
  else if word = "group" then .group
  else if word = "rename" then .rename
  else .unsupported word

/-- A keyword is trimmed and loses its leading colons before it is looked up. -/
def ofKeyword (keyword : String) : Action :=
  ofWord (.ofList ((Text.trimmed keyword.toList).dropWhile (· = ':')))

def keyword (a : Action) : String := ":" ++ a.word

end Action
end SimpleFiles
