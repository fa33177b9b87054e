import SimpleFiles.Proofs.Execution.Refusals
import SimpleFiles.Proofs.Path.Extending

/-! The texts from which an execution makes the paths that it works on, and what it means that
stored results lie under a directory. -/
namespace SimpleFiles

def Parameters.placeKeys : List String := ["path", "name", "group_target"]

def Parameters.givenPaths (params : Parameters) : List String :=
  placeKeys.filterMap params.find?

def Create.givenLines (fs : FileSystem) (dir : Path) (params : Parameters) : List String :=
  match params.find? "namefile" with
  | none => []
  | some file =>
    match fs.readText (dir.join (.ofText file)) with
    | .error _ => []
    | .ok text => namesOfText text

/-- The texts that an instruction is given as paths for some work: values that are in effect,
and the lines of the name file if it is read. -/
def Instruction.givenPaths (declared : Instruction) (work : Work) (fs : FileSystem) (dir : Path)
    (memory : Memory) (condition : Option Condition) : List String :=
  match declared.merged work condition memory with
  | .error _ => []
  | .ok params =>
    params.givenPaths ++ if work = .create then Create.givenLines fs dir params else []

def Execution.givenPaths (fs : FileSystem) (dir : Path) (memory : Memory) (declared : Instruction)
    (condition : Option Condition) : List String :=
  match Work.ofAction? declared.action with
  | none => []
  | some work => declared.givenPaths work fs dir memory condition

section
variable {declared : Instruction} {work : Work} {fs : FileSystem} {dir : Path} {memory : Memory}
  {condition : Option Condition} {params : Parameters}

theorem Instruction.mem_givenPaths (merged : declared.merged work condition memory = .ok params)
    {key value : String} (place : key ∈ Parameters.placeKeys)
    (given : params.find? key = some value) :
    value ∈ declared.givenPaths work fs dir memory condition := by
  rw [givenPaths, merged]
  exact List.mem_append_left _ (List.mem_filterMap.mpr ⟨key, place, given⟩)

theorem Instruction.mem_givenPaths_of_line
    (merged : declared.merged .create condition memory = .ok params) {file text line : String}
    (given : params.find? "namefile" = some file)
    (read : fs.readText (dir.join (.ofText file)) = .ok text)
    (listed : line ∈ Create.namesOfText text) :
    line ∈ declared.givenPaths .create fs dir memory condition := by
  rw [givenPaths, merged]
  refine List.mem_append_right _ ?_
  simpa [Create.givenLines, given, read] using listed

end

/-- A result lies under a directory: its entries strictly, its base perhaps as the directory. -/
structure ResultSet.LiesUnder (dir : Path) (result : ResultSet) : Prop where
  base : ∃ names, dir.Extends names result.base
  entries : ∀ entry ∈ result.entries, entry.IsBelow dir

def Memory.LiesUnder (dir : Path) (memory : Memory) : Prop :=
  ∀ name result, memory.results.find? name = some result → result.LiesUnder dir

theorem Memory.LiesUnder.store {dir : Path} {memory : Memory} (h : memory.LiesUnder dir)
    (name : String) (result : ResultSet) (stored : result.LiesUnder dir) :
    (memory.store name result).LiesUnder dir := by
  intro other found hother
  rw [Memory.store, NameTable.find?_insert] at hother
  split at hother
  · cases hother
    exact stored
  · exact h other found hother

end SimpleFiles
