import SimpleFiles.Memory
import SimpleFiles.Program
import SimpleFiles.Text.Case

/-! The parameters that take effect in one execution: those of an instruction,
overlaid with those of a condition. Keys are compared in lower case. -/
namespace SimpleFiles

def Parameter.lowerKey (p : Parameter) : String := Text.lower p.key

inductive Work where
  | create
  | group
  | rename
deriving DecidableEq, Repr, Inhabited

namespace Work

def ofAction? : Action → Option Work
  | .createFile | .createFolder => some .create
  | .group => some .group
  | .rename => some .rename
  | .unsupported _ => none

/-- Keys that a condition cannot set. -/
def ignoredKeys : Work → List String
  | .create => ["extension", "group_target", "mode", "type", "contains", "regex",
      "modified_date", "size"]
  | .group => ["template_path", "name", "namefile", "name_file", "count"]
  | .rename => ["template_path", "name", "namefile", "name_file", "count", "group_target"]

def ignores (w : Work) (key : String) : Bool := w.ignoredKeys.contains key

end Work

abbrev Parameters := NameTable String

namespace Parameters

def add (env : Environment) (params : Parameters) : List Parameter → Except MemoryError Parameters
  | [] => .ok params
  | p :: rest =>
    match env.resolve p.value with
    | .error e => .error e
    | .ok value => add env (params.insert p.lowerKey value) rest

/-- The parameters of a condition that count for this kind of work. -/
def effective (work : Work) (condition : List Parameter) : List Parameter :=
  condition.filter fun p => !work.ignores p.lowerKey

def merge (work : Work) (instruction : List Parameter) (condition : Option (List Parameter))
    (env : Environment) : Except MemoryError Parameters :=
  match add env .empty instruction with
  | .error e => .error e
  | .ok params => add env params (effective work (condition.getD []))

end Parameters
end SimpleFiles
