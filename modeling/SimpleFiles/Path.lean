/-! Paths are texts split at their slashes. Their components leave out empty
segments and single dots, except for a single dot at the very front. -/
namespace SimpleFiles

structure Path where
  segments : List String
deriving DecidableEq, Repr, Inhabited

namespace Path

inductive Component where
  | root
  | current
  | parent
  | normal (name : String)
deriving DecidableEq, Repr, Inhabited

def ofText (text : String) : Path := ⟨(text.toList.splitOn '/').map .ofList⟩

def text (p : Path) : String := "/".intercalate p.segments

def empty : Path := ⟨[""]⟩

def isAbsolute (p : Path) : Bool :=
  match p.segments with
  | "" :: _ :: _ => true
  | _ => false

/-- A segment that leads nowhere. -/
def isIdle (segment : String) : Bool := segment = "" || segment = "."

/-- What the path starts at, if that is a component, and the segments after it. -/
def start (p : Path) : Option Component × List String :=
  match p.segments with
  | "" :: first :: rest => (some .root, first :: rest)
  | "." :: rest => (some .current, rest)
  | segments => (none, segments)

def component? (segment : String) : Option Component :=
  if isIdle segment then none
  else if segment = ".." then some .parent
  else some (.normal segment)

def components (p : Path) : List Component :=
  p.start.1.toList ++ p.start.2.filterMap component?

/-- Equality up to idle segments. -/
def same (p q : Path) : Bool := p.components == q.components

def depth (p : Path) : Nat := p.components.length

/-- An absolute path replaces; a relative one is put after exactly one slash. -/
def join (p q : Path) : Path :=
  if q.isAbsolute then q
  else if p.segments.getLast? = some "" then ⟨p.segments.dropLast ++ q.segments⟩
  else ⟨p.segments ++ q.segments⟩

def below (p : Path) (names : List String) : Path :=
  if names = [] then p else p.join ⟨names⟩

def fileName? (p : Path) : Option String :=
  match p.components.getLast? with
  | some (.normal name) => some name
  | _ => none

def fileName (p : Path) : String := p.fileName?.getD ""

def dropIdle (segments : List String) : List String := segments.dropWhile isIdle

def dropIdleRight (segments : List String) : List String :=
  (segments.reverse.dropWhile isIdle).reverse

def ofStart : Option Component → List String → Path
  | some .root, [] => ⟨["", ""]⟩
  | some .root, segments => ⟨"" :: segments⟩
  | some .current, segments => ⟨"." :: segments⟩
  | _, [] => empty
  | _, segments => ⟨segments⟩

/-- The path without its last component; the root and the empty path have no parent. -/
def parent? (p : Path) : Option Path :=
  match p.start, dropIdleRight p.start.2 with
  | (some .current, _), [] => some empty
  | (_, _), [] => none
  | (first, _), segments => some (ofStart first (dropIdleRight segments.dropLast))

def dropComponents : Nat → List String → List String
  | 0, segments => segments
  | _ + 1, [] => []
  | n + 1, s :: rest => if isIdle s then dropComponents (n + 1) rest else dropComponents n rest

/-- The path relative to a base whose components it starts with. -/
def relativeTo? (p base : Path) : Option Path :=
  if base.components.isPrefixOf p.components then
    let n := base.components.length
    if n = 0 then some (ofStart p.start.1 (dropIdleRight p.start.2))
    else
      let rest := dropComponents (n - p.start.1.toList.length) p.start.2
      some (ofStart none (dropIdleRight (dropIdle rest)))
  else none

def withFileName (p : Path) (name : String) : Path :=
  match p.fileName?, p.parent? with
  | some _, some parent => parent.join (ofText name)
  | _, _ => p.join (ofText name)

def shortText (p : Path) : String := p.fileName?.getD p.text

end Path
end SimpleFiles
