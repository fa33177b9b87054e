import SimpleFiles.FileName
import SimpleFiles.FileSystem
import SimpleFiles.Filter.DateRange
import SimpleFiles.Filter.Pattern
import SimpleFiles.Filter.SizeBound
import SimpleFiles.Parameters

/-! A filter admits the entries that pass every option it has. Options are read
once, so that a bad one is found before anything is touched. -/
namespace SimpleFiles

inductive EntryKind where
  | file
  | folder
deriving DecidableEq, Repr, Inhabited

namespace EntryKind

/-- Other texts restrict nothing. -/
def ofText? (text : String) : Option EntryKind :=
  if text = "file" then some .file else if text = "folder" then some .folder else none

def admits (kind : EntryKind) (isDirectory : Bool) : Bool :=
  match kind with
  | .file => !isDirectory
  | .folder => isDirectory

end EntryKind

structure Filter where
  contains : Option String := none
  /-- The number of capture groups of the pattern. -/
  groups : Option Nat := none
  extension : Option String := none
  kind : Option EntryKind := none
  modified : Option DateRange := none
  size : Option SizeBound := none
deriving DecidableEq, Repr, Inhabited

namespace Filter

def isEmpty (f : Filter) : Bool :=
  f.contains.isNone && f.groups.isNone && f.extension.isNone && f.kind.isNone
    && f.modified.isNone && f.size.isNone

def readPattern (pattern : String) : Except FilterError Nat :=
  (Pattern.groups pattern).mapError (.invalidPattern pattern)

/-- The filter that parameters describe, apart from those with excluded keys. -/
def ofParameters (params : Parameters) (excluded : List String) : Except FilterError Filter := do
  let get := fun key => if key ∈ excluded then none else params.find? key
  return {
    contains := get "contains"
    groups := ← (get "regex").mapM readPattern
    extension := get "extension"
    kind := (get "type").bind EntryKind.ofText?
    modified := ← (get "modified_date").mapM DateRange.read
    size := ← SizeBound.read (get "size") (get "comparator") }

def occursIn (needle : List Char) : List Char → Bool
  | [] => needle = []
  | c :: rest => needle.isPrefixOf (c :: rest) || occursIn needle rest

/-- Each option tests the name of an entry or what is known of it. A pattern is
passed when it has a capture group, whatever the name. -/
def admits (f : Filter) (name : String) (data : FileSystem.Metadata) : Bool :=
  f.contains.all (fun needle => occursIn needle.toList name.toList)
    && f.groups.all (fun groups => 0 < groups)
    && f.extension.all (FileName.extension name = ·)
    && f.kind.all (·.admits data.isDirectory)
    && f.modified.all (·.contains data.modified)
    && f.size.all (·.admits data.size)

def accepts (f : Filter) (fs : FileSystem) (p : Path) : Bool :=
  match fs.metadata p with
  | .ok data => f.admits p.fileName data
  | .error _ => false

def apply (f : Filter) (fs : FileSystem) (entries : List Path) : List Path :=
  entries.filter (f.accepts fs)

end Filter
end SimpleFiles
