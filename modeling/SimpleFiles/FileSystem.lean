import SimpleFiles.DateTime
import SimpleFiles.FileSystem.Resolve

/-! The calls on a file system: a tree, the times at which some entries were
last modified, and the time at which all others were. A call that fails leaves
everything as it was. -/
namespace SimpleFiles

structure FileSystem where
  tree : FileTree := .empty
  stamps : List (Location × DateTime) := []
  clock : DateTime
deriving DecidableEq, Inhabited

namespace FileSystem

def directorySize : Nat := 4096

def modified (fs : FileSystem) (l : Location) : DateTime := (fs.stamps.lookup l).getD fs.clock

/-- Entries that are written anew are modified at the time of the clock. -/
def touch (fs : FileSystem) (ls : List Location) : FileSystem :=
  { fs with stamps := fs.stamps.filter (·.1 ∉ ls) }

structure Metadata where
  isDirectory : Bool
  size : Nat
  modified : DateTime
deriving DecidableEq, Inhabited

def metadata (fs : FileSystem) (p : Path) : Except FileError Metadata := do
  let l ← Place.locate fs.tree true p
  match fs.tree.get? l with
  | some (.file content) => return ⟨false, content.size, fs.modified l⟩
  | _ => return ⟨fs.tree.isDirectory l, directorySize, fs.modified l⟩

def pathExists (fs : FileSystem) (p : Path) : Bool := (fs.metadata p).isOk

def isDirectory (fs : FileSystem) (p : Path) : Bool :=
  match Place.locate fs.tree true p with
  | .ok l => fs.tree.isDirectory l
  | .error _ => false

def isFile (fs : FileSystem) (p : Path) : Bool :=
  match Place.locate fs.tree true p with
  | .ok l => fs.tree.isFile l
  | .error _ => false

def walk (fs : FileSystem) (root : Path) : List Path :=
  match Place.locate fs.tree true root with
  | .ok l => (fs.tree.under l).map fun (names, _) => root.below names
  | .error _ => []

def children (fs : FileSystem) (p : Path) : Except FileError (List Path) := do
  let l ← Place.locate fs.tree true p
  if fs.tree.isDirectory l then return (fs.tree.children l).map fun name => p.below [name]
  else throw .notDirectory

def content (fs : FileSystem) (p : Path) : Except FileError ByteArray := do
  let l ← Place.locate fs.tree true p
  match fs.tree.get? l with
  | some (.file content) => return content
  | _ => throw .isDirectory

def readText (fs : FileSystem) (p : Path) : Except FileError String := do
  match String.fromUTF8? (← fs.content p) with
  | some text => return text
  | none => throw .notText

def add (fs : FileSystem) (parent : Location) (name : String) (n : Node) : FileSystem :=
  { fs.touch [parent, parent ++ [name]] with tree := fs.tree.insert (parent ++ [name]) n }

/-- A new directory; even a link that leads nowhere stands in its way. -/
def createDirectory (fs : FileSystem) (p : Path) : Except FileError FileSystem := do
  match ← LastName.ofPath fs.tree p with
  | none => throw .entryExists
  | some last =>
    if fs.tree.contains last.location then throw .entryExists
    else return fs.add last.parent last.name .directory

/-- A directory is made within one that is made first if it is missing. -/
def createAllUpTo : Nat → FileSystem → Path → FileSystem × Except FileError Unit
  | 0, fs, _ => (fs, .error .noTree)
  | depth + 1, fs, p =>
    if p = .empty then (fs, .ok ())
    else
      match fs.createDirectory p with
      | .ok fs => (fs, .ok ())
      | .error .noEntry =>
        match p.parent? with
        | none => (fs, .error .noTree)
        | some parent =>
          match createAllUpTo depth fs parent with
          | (fs, .error e) => (fs, .error e)
          | (fs, .ok ()) =>
            match fs.createDirectory p with
            | .ok fs => (fs, .ok ())
            | .error e => (fs, if fs.isDirectory p then .ok () else .error e)
      | .error e => (fs, if fs.isDirectory p then .ok () else .error e)

/-- A directory with all the directories above it; those that are there are kept. -/
def createAll (fs : FileSystem) (p : Path) : FileSystem × Except FileError Unit :=
  createAllUpTo (p.depth + 1) fs p

def createFile (fs : FileSystem) (p : Path) : Except FileError FileSystem := do
  match ← LastName.ofPath fs.tree p with
  | none => throw .entryExists
  | some last =>
    if last.hasSlash then throw .isDirectory
    else if fs.tree.contains last.location then throw .entryExists
    else return fs.add last.parent last.name (.file .empty)

/-- Gives a file its content. A link is followed, and its target made if it is missing. -/
def write (fs : FileSystem) (p : Path) (content : ByteArray) : Except FileError FileSystem := do
  if (← LastName.ofPath fs.tree p).any (LastName.endsInSlash fs.tree Place.maxLinks) then
    throw .isDirectory
  match ← Place.ofPath fs.tree true p with
  | .free parent name => return fs.add parent name (.file content)
  | .entry l =>
    if fs.tree.isFile l then
      return { fs.touch [l] with tree := fs.tree.insert l (.file content) }
    else throw .isDirectory

/-- Copies the content of a file. A file that is copied onto itself is emptied first. -/
def copyFile (fs : FileSystem) (source target : Path) : Except FileError FileSystem := do
  let l ← Place.locate fs.tree true source
  match fs.tree.get? l with
  | some (.file content) =>
    let fs ← fs.write target .empty
    if fs.tree.get? l = some (.file .empty) then return fs
    else fs.write target content
  | _ => throw .notRegular

def moveStamps (stamps : List (Location × DateTime)) (source target : Location) :
    List (Location × DateTime) :=
  (stamps.filter fun (l, _) => source.isPrefixOf l).map
      (fun (l, time) => (target ++ l.drop source.length, time))
    ++ stamps.filter fun (l, _) => !source.isPrefixOf l && l ≠ target

/-- Moves an entry, a link itself included, onto a free place, a file or an empty directory. -/
def rename (fs : FileSystem) (source target : Path) : Except FileError FileSystem := do
  let old ← LastName.ofPath fs.tree source
  let new ← LastName.ofPath fs.tree target
  match old, new with
  | some old, some new =>
    match fs.tree.get? old.location with
    | none => throw .noEntry
    | some n =>
      if !n.isDirectory && (old.hasSlash || new.hasSlash) then throw .notDirectory
      if old.location.isPrefixOf new.parent then throw .invalidArgument
      if new.location.isPrefixOf old.parent then throw .notEmpty
      if old.location = new.location then return fs
      match fs.tree.get? new.location with
      | some m =>
        if n.isDirectory && !m.isDirectory then throw .notDirectory
        if !n.isDirectory && m.isDirectory then throw .isDirectory
        if m.isDirectory && fs.tree.under new.location ≠ [] then throw .notEmpty
      | none => pure ()
      let moved := { fs with
        tree := fs.tree.move old.location new.location
        stamps := moveStamps fs.stamps old.location new.location }
      return moved.touch [old.parent, new.parent]
  | _, _ => throw .busy

def removeFile (fs : FileSystem) (p : Path) : Except FileError FileSystem := do
  match ← LastName.ofPath fs.tree p with
  | none => throw .isDirectory
  | some last =>
    match fs.tree.get? last.location with
    | none => throw .noEntry
    | some n =>
      if n.isDirectory then throw .isDirectory
      else if last.hasSlash then throw .notDirectory
      else return { fs.touch [last.parent, last.location] with tree := fs.tree.erase last.location }

def removeAll (fs : FileSystem) (p : Path) : Except FileError FileSystem := do
  let l ← Place.locate fs.tree false p
  return { fs.touch (l.dropLast :: l :: (fs.tree.under l).map (l ++ ·.1)) with
    tree := fs.tree.prune l }

def createLink (fs : FileSystem) (p : Path) (target : String) : Except FileError FileSystem := do
  match ← LastName.ofPath fs.tree p with
  | none => throw .entryExists
  | some last =>
    if fs.tree.contains last.location then throw .entryExists
    else if last.hasSlash then throw .noEntry
    else return fs.add last.parent last.name (.link target)

def setModified (fs : FileSystem) (p : Path) (time : DateTime) : Except FileError FileSystem := do
  let l ← Place.locate fs.tree true p
  return { fs with stamps := (l, time) :: (fs.touch [l]).stamps }

end FileSystem
end SimpleFiles
