import SimpleFiles.FileTree
import SimpleFiles.Path

/-! Where a path leads in a tree. Links are followed on the way, up to forty of
them; a path that ends in a slash or a dot leads to a directory. -/
namespace SimpleFiles

inductive FileError where
  | noEntry
  | busy
  | entryExists
  | notDirectory
  | isDirectory
  | invalidArgument
  | nameTooLong
  | notEmpty
  | tooManyLinks
  | zeroInPath
  | notText
  | notRegular
  | noTree
deriving DecidableEq, Repr, Inhabited

def FileError.message : FileError → String
  | .noEntry => "No such file or directory (os error 2)"
  | .busy => "Device or resource busy (os error 16)"
  | .entryExists => "File exists (os error 17)"
  | .notDirectory => "Not a directory (os error 20)"
  | .isDirectory => "Is a directory (os error 21)"
  | .invalidArgument => "Invalid argument (os error 22)"
  | .nameTooLong => "File name too long (os error 36)"
  | .notEmpty => "Directory not empty (os error 39)"
  | .tooManyLinks => "Too many levels of symbolic links (os error 40)"
  | .zeroInPath => "file name contained an unexpected NUL byte"
  | .notText => "stream did not contain valid UTF-8"
  | .notRegular => "the source path is neither a regular file nor a symlink to a regular file"
  | .noTree => "failed to create whole tree"

/-- What a path leads to: an entry, or a free place in a directory. -/
inductive Place where
  | entry (location : Location)
  | free (parent : Location) (name : String)
deriving DecidableEq, Repr, Inhabited

namespace Place

/-- The location of a link's target or of the link itself, from where the link lies. -/
def linkStart (target : Path) (parent : Location) : Location :=
  if target.isAbsolute then [] else parent

def maxNameSize : Nat := 255

/-- Walks from a directory along segments; links are handed over. -/
def walkWith (t : FileTree) (follow : Bool)
    (onLink : Location → List String → Except FileError Place) (at_ : Location) :
    List String → Except FileError Place
  | [] => .ok (.entry at_)
  | s :: rest =>
    if !t.isDirectory at_ then .error .notDirectory
    else if Path.isIdle s then walkWith t follow onLink at_ rest
    else if s = ".." then walkWith t follow onLink at_.dropLast rest
    else if s.utf8ByteSize > maxNameSize then .error .nameTooLong
    else
      match t.get? (at_ ++ [s]) with
      | none => if rest = [] then .ok (.free at_ s) else .error .noEntry
      | some (.link target) =>
        if rest = [] ∧ !follow then .ok (.entry (at_ ++ [s]))
        else
          let target := Path.ofText target
          onLink (linkStart target at_) (target.segments ++ rest)
      | some _ => walkWith t follow onLink (at_ ++ [s]) rest

def walk (t : FileTree) (follow : Bool) : Nat → Location → List String → Except FileError Place
  | 0 => walkWith t follow fun _ _ => .error .tooManyLinks
  | links + 1 => walkWith t follow (walk t follow links)

def maxLinks : Nat := 40

def maxPathSize : Nat := 4096

def checkText (p : Path) : Except FileError Unit :=
  if '\x00' ∈ p.text.toList then .error .zeroInPath
  else if p.text = "" then .error .noEntry
  else if p.text.utf8ByteSize ≥ maxPathSize then .error .nameTooLong
  else .ok ()

/-- What a path leads to, with or without following a link at its end. -/
def ofPath (t : FileTree) (follow : Bool) (p : Path) : Except FileError Place := do
  checkText p
  walk t follow maxLinks [] p.segments

def locate (t : FileTree) (follow : Bool) (p : Path) : Except FileError Location := do
  match ← ofPath t follow p with
  | .entry l => return l
  | .free .. => throw .noEntry

end Place

structure LastName where
  parent : Location
  name : String
  hasSlash : Bool
deriving DecidableEq, Repr, Inhabited

namespace LastName

def location (n : LastName) : Location := n.parent ++ [n.name]

/-- A path that ends in a dot, two dots or the root has no last name. -/
def ofPath (t : FileTree) (p : Path) : Except FileError (Option LastName) := do
  Place.checkText p
  let segments := (p.segments.reverse.dropWhile (· = "")).reverse
  match segments.getLast? with
  | none => return none
  | some name =>
    match ← Place.walk t true Place.maxLinks [] segments.dropLast with
    | .free .. => throw .noEntry
    | .entry parent =>
      if !t.isDirectory parent then throw .notDirectory
      else if name = "." ∨ name = ".." then return none
      else if name.utf8ByteSize > Place.maxNameSize then throw .nameTooLong
      else return some ⟨parent, name, p.segments.getLast? = some ""⟩

def endsInSlash (t : FileTree) : Nat → LastName → Bool
  | 0, last => last.hasSlash
  | links + 1, last =>
    last.hasSlash ||
      match t.get? last.location with
      | some (.link target) =>
        let target := Path.ofText target
        match ofPath t ⟨"" :: Place.linkStart target last.parent ++ target.segments⟩ with
        | .ok (some next) => endsInSlash t links next
        | _ => false
      | _ => false

end LastName
end SimpleFiles
