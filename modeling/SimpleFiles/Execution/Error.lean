import SimpleFiles.FileSystem.Resolve
import SimpleFiles.Filter.Error
import SimpleFiles.Memory
import SimpleFiles.NameTemplate

/-! Why an instruction fails, or a statement that executes one. -/
namespace SimpleFiles

inductive Refusal where
  | unsupportedAction (word : String)
  | nameMissing
  | noNames (file : Path)
  | countFormat (count : String)
  | countTooSmall (count : String)
  | dotInFolderName (name : String)
  | noGroupTarget
  | groupTargetNotDirectory
  | noPath
  | noMode
  | noPathOrMode
  | pathMissing
  | pathNotFolder
deriving DecidableEq, Repr, Inhabited

def Refusal.message : Refusal → String
  | .unsupportedAction word => "Unsupported action :" ++ word
  | .nameMissing => "Name parameter is missing"
  | .noNames file => "Name file " ++ file.text ++ " contains no names"
  | .countFormat count => "Invalid format for Count: " ++ count ++ "."
  | .countTooSmall count => "Count can not be less than 1: " ++ count ++ "."
  | .dotInFolderName name => "Found restricted symbol in specified folder name: " ++ name
  | .noGroupTarget => "Group target not specified."
  | .groupTargetNotDirectory => "Group target must be a directory."
  | .noPath => "Path not specified."
  | .noMode => "Mode not specified."
  | .noPathOrMode => "Unknown targetPath or mode."
  | .pathMissing => "Are you sure the specified path exists?"
  | .pathNotFolder => "Path must be a valid folder!"

inductive Attempt where
  | readNames (file : Path)
  | makeCreatePath
  | copyTemplate (template target : Path)
  | makeFile (target : Path)
  | makeFolder (target : Path)
  | makeOutput
  | listFolder
deriving DecidableEq, Repr, Inhabited

def Attempt.message : Attempt → String
  | .readNames file => "Unable to read name file " ++ file.text
  | .makeCreatePath => "File path does not exist"
  | .copyTemplate template target =>
    "Failed to copy template " ++ template.text ++ " on " ++ target.shortText ++ " file creation"
  | .makeFile target => "Failed on " ++ target.shortText ++ " file creation"
  | .makeFolder target => "Failed on " ++ target.shortText ++ " folder creation"
  | .makeOutput => "Unable to create output directory"
  | .listFolder => "Unable to list folder"

inductive ExecutionError where
  | refused (instruction : String) (cause : Refusal)
  | naming (instruction : String) (cause : NameError)
  | filter (instruction : String) (cause : FilterError)
  | files (instruction : String) (attempt : Attempt) (cause : FileError)
  | renameFailed (path : Path) (cause : FileError)
  | memory (cause : MemoryError)
deriving DecidableEq, Repr, Inhabited

namespace ExecutionError

private def running (instruction what : String) : String :=
  "Error encountered running instruction: " ++ instruction ++ ". " ++ what

def message : ExecutionError → String
  | .refused instruction cause => running instruction cause.message
  | .naming instruction cause => running instruction cause.message
  | .filter instruction cause => running instruction cause.message
  | .files instruction attempt cause =>
    running instruction (attempt.message ++ ": " ++ cause.message)
  | .renameFailed path _ => "Failed to rename file: " ++ path.text
  | .memory cause => cause.message

end ExecutionError

inductive StatementError where
  | undefinedInstruction (name : String)
  | undefinedCondition (name : String)
  | execution (cause : ExecutionError)
deriving DecidableEq, Repr, Inhabited

def StatementError.message : StatementError → String
  | .undefinedInstruction name => "Instruction not found: " ++ name
  | .undefinedCondition name => "Condition not found: " ++ name
  | .execution cause => cause.message

end SimpleFiles
