import SimpleFiles.FileTree

/-! The changes that lead from one tree to another, in an order in which they
can be made one after the other. -/
namespace SimpleFiles

inductive Change where
  | makeDirectory (l : Location)
  | write (l : Location) (content : ByteArray)
  | moveLink (source target : Location)
  | removeDirectory (l : Location)
  | removeFile (l : Location)
deriving DecidableEq, Inhabited

namespace FileTree

def newDirectories (old new : FileTree) : List Location :=
  (new.entries.filter fun (l, n) => n.isDirectory && !old.isDirectory l).map Prod.fst

def lostLinks (old new : FileTree) : List (Location × Node) :=
  old.entries.filter fun (l, n) => n.isLink && new.get? l != some n

/-- Pairs each link with one that was lost and leads to the same target. -/
def moveLinks : List (Location × Node) → List (Location × Node) → List (Location × Location)
  | _, [] => []
  | lost, (l, n) :: rest =>
    match lost.find? (·.2 = n) with
    | some source => (source.1, l) :: moveLinks (lost.erase source) rest
    | none => moveLinks lost rest

def removals (old new : FileTree) : List Change :=
  old.entries.reverse.filterMap fun (l, n) =>
    if n.isDirectory then if new.isDirectory l then none else some (.removeDirectory l)
    else if n.isFile && !new.isFile l then some (.removeFile l)
    else none

def writes (old new : FileTree) : List Change :=
  new.entries.filterMap fun (l, n) =>
    match n with
    | .file content => if old.get? l = some n then none else some (.write l content)
    | _ => none

/-- Directories come first, and once more where something else has to go before. -/
def changes (old new : FileTree) : List Change :=
  let made := newDirectories old new
  let links := moveLinks (lostLinks old new) (lostLinks new old)
  let (replaced, free) := made.partition fun l => old.entries.any fun e => e.1.isPrefixOf l
    && !e.2.isDirectory
  free.map .makeDirectory ++ links.map (fun (source, target) => .moveLink source target)
    ++ removals old new ++ replaced.map .makeDirectory ++ writes old new

end FileTree
end SimpleFiles
