/-! A tree of files, directories and links. An entry is known by its location,
the names that lead to it from the root; the root itself is always a directory.
Entries are kept in the order of their locations, so that a directory stands
before what it holds and siblings are sorted by name. -/
namespace SimpleFiles

abbrev Location := List String

instance decidableContentEq : DecidableEq ByteArray := fun a b =>
  decidable_of_iff (a.data = b.data) ByteArray.ext_iff.symm

inductive Node where
  | file (content : ByteArray)
  | directory
  | link (target : String)
deriving DecidableEq, Inhabited

namespace Node

def isDirectory : Node → Bool
  | .directory => true
  | _ => false

def isFile : Node → Bool
  | .file _ => true
  | _ => false

def isLink : Node → Bool
  | .link _ => true
  | _ => false

end Node

structure FileTree where
  entries : List (Location × Node)
  sorted : entries.Pairwise (fun a b => a.1 < b.1)

namespace FileTree

theorem ext {t u : FileTree} (h : t.entries = u.entries) : t = u := by
  cases t; cases u; cases h; rfl

instance : DecidableEq FileTree := fun t u =>
  if h : t.entries = u.entries then isTrue (ext h) else isFalse fun e => h (e ▸ rfl)

def empty : FileTree := ⟨[], .nil⟩

instance : Inhabited FileTree := ⟨empty⟩

def get? (t : FileTree) (l : Location) : Option Node :=
  if l = [] then some .directory else t.entries.lookup l

def contains (t : FileTree) (l : Location) : Bool := (t.get? l).isSome

def isDirectory (t : FileTree) (l : Location) : Bool := (t.get? l).any Node.isDirectory

def isFile (t : FileTree) (l : Location) : Bool := (t.get? l).any Node.isFile

/-- Puts an entry in its place, or in the place of the one with its location. -/
def place (l : Location) (n : Node) : List (Location × Node) → List (Location × Node)
  | [] => [(l, n)]
  | e :: rest =>
    if l < e.1 then (l, n) :: e :: rest
    else if l = e.1 then (l, n) :: rest
    else e :: place l n rest

theorem mem_place {l : Location} {n : Node} {entries : List (Location × Node)}
    {e : Location × Node} (h : e ∈ place l n entries) : e = (l, n) ∨ e ∈ entries := by
  induction entries with
  | nil => simpa [place] using h
  | cons f rest ih =>
    unfold place at h
    split at h
    · simpa using h
    · split at h
      · rcases List.mem_cons.1 h with h | h
        · exact .inl h
        · exact .inr (.tail _ h)
      · rcases List.mem_cons.1 h with h | h
        · exact .inr (h ▸ .head _)
        · exact (ih h).imp_right (.tail _)

theorem sorted_place (l : Location) (n : Node) {entries : List (Location × Node)}
    (h : entries.Pairwise (fun a b => a.1 < b.1)) :
    (place l n entries).Pairwise (fun a b => a.1 < b.1) := by
  induction entries with
  | nil => exact List.pairwise_singleton _ _
  | cons f rest ih =>
    obtain ⟨hf, hr⟩ := List.pairwise_cons.1 h
    unfold place
    split
    · next hl =>
      refine List.pairwise_cons.2 ⟨fun e he => ?_, h⟩
      rcases List.mem_cons.1 he with rfl | he
      · exact hl
      · exact List.lt_trans hl (hf e he)
    · next hl =>
      split
      · next heq => exact List.pairwise_cons.2 ⟨fun e he => heq ▸ hf e he, hr⟩
      · next hne =>
        refine List.pairwise_cons.2 ⟨fun e he => ?_, ih hr⟩
        rcases mem_place he with rfl | he
        · exact Decidable.byContradiction fun h => hne (Std.Trichotomous.trichotomous _ _ hl h)
        · exact hf e he

/-- The tree with an entry at a location; the root cannot be replaced. -/
def insert (t : FileTree) (l : Location) (n : Node) : FileTree :=
  if l = [] then t else ⟨place l n t.entries, sorted_place l n t.sorted⟩

def filter (t : FileTree) (test : Location → Bool) : FileTree :=
  ⟨t.entries.filter (test ·.1), t.sorted.filter _⟩

def erase (t : FileTree) (l : Location) : FileTree := t.filter (· ≠ l)

def prune (t : FileTree) (l : Location) : FileTree := t.filter (!l.isPrefixOf ·)

def insertAll (t : FileTree) (entries : List (Location × Node)) : FileTree :=
  entries.foldl (fun t e => t.insert e.1 e.2) t

def ofList (entries : List (Location × Node)) : FileTree := empty.insertAll entries

/-- The names that lead from a location to one below it. -/
def below? (l m : Location) : Option Location :=
  if l.isPrefixOf m ∧ m ≠ l then some (m.drop l.length) else none

/-- Whatever lies below a location, parents before children and siblings by name. -/
def under (t : FileTree) (l : Location) : List (Location × Node) :=
  t.entries.filterMap fun (m, n) => (below? l m).map (·, n)

def children (t : FileTree) (l : Location) : List String :=
  (t.under l).filterMap fun
    | ([name], _) => some name
    | _ => none

/-- Moves an entry with all below it to another location. -/
def move (t : FileTree) (source target : Location) : FileTree :=
  match t.get? source with
  | none => t
  | some n =>
    let moved := (t.under source).map fun (m, n) => (target ++ m, n)
    ((t.prune source).insert target n).insertAll moved

end FileTree
end SimpleFiles
