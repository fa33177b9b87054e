import SimpleFiles.Proofs.FileSystem.Making
import SimpleFiles.Proofs.FileSystem.Renaming
import SimpleFiles.Proofs.FileTree.Ways

/-! The calls that change a file system, and the locations that each of them touches. What is
neither touched nor below something touched stays as it was, and a tree that a disk may hold
stays one. -/
namespace SimpleFiles

open FileTree

def LastName.location? (t : FileTree) (p : Path) : Option Location :=
  match ofPath t p with
  | .ok (some last) => some last.location
  | _ => none

def Place.location? (t : FileTree) (p : Path) : Option Location :=
  match ofPath t true p with
  | .ok (.entry l) => some l
  | .ok (.free parent name) => some (parent ++ [name])
  | .error _ => none

inductive Call where
  | createDirectory (p : Path)
  | createFile (p : Path)
  | write (p : Path) (content : ByteArray)
  | rename (source target : Path)
  | removeFile (p : Path)
deriving DecidableEq, Inhabited

namespace Call

def perform (fs : FileSystem) : Call → Except FileError FileSystem
  | .createDirectory p => fs.createDirectory p
  | .createFile p => fs.createFile p
  | .write p content => fs.write p content
  | .rename source target => fs.rename source target
  | .removeFile p => fs.removeFile p

def paths : Call → List Path
  | .createDirectory p | .createFile p | .write p _ | .removeFile p => [p]
  | .rename source target => [source, target]

/-- The locations of what a call creates, overwrites, renames or removes. -/
def touched (t : FileTree) : Call → List Location
  | .createDirectory p | .createFile p | .removeFile p => (LastName.location? t p).toList
  | .write p _ => (Place.location? t p).toList
  | .rename source target =>
    (LastName.location? t source).toList ++ (LastName.location? t target).toList

end Call

namespace LastName

variable {t : FileTree} {p : Path} {last : LastName}

theorem location?_of_ofPath (h : ofPath t p = .ok (some last)) :
    location? t p = some last.location := by
  rw [location?, h]

theorem exists_of_location? (l : Location) (h : location? t p = some l) :
    ∃ last, ofPath t p = .ok (some last) ∧ last.location = l := by
  unfold location? at h
  split at h
  · rename_i last found
    exact ⟨last, found, Option.some.inj h⟩
  · cases h

theorem location_eq_wayEnd (plain : t.HasNoLinks) (h : ofPath t p = .ok (some last)) :
    last.location = wayEnd [] p.segments := by
  obtain ⟨front, slashes, ends⟩ := exists_ends h
  have parent := Place.eq_wayEnd_of_leads plain _ _ _ _ ends.leads
  rw [ends.split, wayEnd_append, ← parent, wayEnd, ends.named, if_neg Bool.false_ne_true,
    if_neg ends.notUp, wayEnd_idle _ slashes ends.allIdle, location]

theorem isLegalName_of_ofPath (plain : p.IsPlain) (h : ofPath t p = .ok (some last)) :
    IsLegalName last.name := by
  obtain ⟨front, slashes, ends⟩ := exists_ends h
  exact Path.isLegalName_of_mem p plain ends.asked last.name (by simp [ends.split]) ends.named
    ends.notUp ends.short

end LastName

namespace FileSystem

variable {fs fs' : FileSystem} {p : Path}

theorem lastName_of_removeFile (h : fs.removeFile p = .ok fs') :
    ∃ last n, LastName.ofPath fs.tree p = .ok (some last) ∧
      fs.tree.get? last.location = some n ∧ n.isDirectory = false ∧
      fs'.tree = fs.tree.erase last.location := by
  unfold removeFile at h
  simp only [bind, Except.bind] at h
  split at h
  · cases h
  rename_i found hf
  cases found with
  | none => cases h
  | some last =>
    simp only at h
    split at h
    · cases h
    rename_i n hn
    split at h
    · cases h
    rename_i noDirectory
    split at h
    · cases h
    · cases h
      exact ⟨last, n, hf, hn, by simpa using noDirectory, rfl⟩

theorem isProper_add (proper : fs.tree.IsProper) (parent : Location) (name : String) (n : Node)
    (directory : fs.tree.isDirectory parent = true) (legal : IsLegalName name)
    (free : fs.tree.get? (parent ++ [name]) = none) (noLink : n.isLink = false) :
    (fs.add parent name n).tree.IsProper := by
  refine proper.insert parent name n directory legal ?_ noLink
  rw [FileTree.isDirectory, free]
  rfl

end FileSystem

namespace Call

variable {fs fs' : FileSystem}

theorem get?_of_untouched (call : Call) (h : call.perform fs = .ok fs') (l : Location)
    (outside : ∀ m ∈ call.touched fs.tree, ¬ m <+: l) :
    fs'.tree.get? l = fs.tree.get? l := by
  have elsewhere : ∀ m ∈ call.touched fs.tree, l ≠ m := fun m hm same =>
    outside m hm (same ▸ List.prefix_refl _)
  have filled : ∀ last : LastName, last.location ≠ [] := by simp [LastName.location]
  cases call with
  | createDirectory p =>
    obtain ⟨last, found, -, rfl⟩ := FileSystem.lastName_of_createDirectory h
    have away := elsewhere last.location (by simp [touched, LastName.location?_of_ofPath found])
    exact (get?_insert _ _ (filled last) _ _).trans (if_neg away)
  | createFile p =>
    obtain ⟨last, found, -, -, rfl⟩ := FileSystem.lastName_of_createFile h
    have away := elsewhere last.location (by simp [touched, LastName.location?_of_ofPath found])
    exact (get?_insert _ _ (filled last) _ _).trans (if_neg away)
  | write p content =>
    rcases FileSystem.write_cases p content h with
      ⟨parent, name, reached, rfl⟩ | ⟨m, old, reached, found, tree⟩
    · have away := elsewhere (parent ++ [name]) (by simp [touched, Place.location?, reached])
      exact (get?_insert _ _ (by simp) _ _).trans (if_neg away)
    · have away := elsewhere m (by simp [touched, Place.location?, reached])
      have notRoot : m ≠ [] := by
        rintro rfl
        cases found
      rw [tree, get?_insert _ _ notRoot, if_neg away]
  | rename source target =>
    obtain ⟨old, new, n, hold, hnew, hn⟩ := FileSystem.names_of_rename h
    rcases FileSystem.moves_of_rename hold hnew hn h with ⟨-, rfl⟩ | ⟨-, -, moved⟩
    · rfl
    · rw [moved]
      apply get?_move_of_outside _ _ _ _ (filled new)
      · exact outside old.location (by simp [touched, LastName.location?_of_ofPath hold])
      · exact outside new.location (by simp [touched, LastName.location?_of_ofPath hnew])
  | removeFile p =>
    obtain ⟨last, n, found, -, -, tree⟩ := FileSystem.lastName_of_removeFile h
    have away := elsewhere last.location (by simp [touched, LastName.location?_of_ofPath found])
    rw [tree, get?_erase _ _ _ (filled last), if_neg away]

theorem eq_wayEnd_of_touched (call : Call) (plain : fs.tree.HasNoLinks) (l : Location)
    (h : l ∈ call.touched fs.tree) : ∃ p ∈ call.paths, l = wayEnd [] p.segments := by
  have last : ∀ p, LastName.location? fs.tree p = some l → l = wayEnd [] p.segments := by
    intro p found
    obtain ⟨last, ofPath, rfl⟩ := LastName.exists_of_location? l found
    exact LastName.location_eq_wayEnd plain ofPath
  cases call with
  | createDirectory p => exact ⟨p, List.mem_cons_self .., last p (by simpa [touched] using h)⟩
  | createFile p => exact ⟨p, List.mem_cons_self .., last p (by simpa [touched] using h)⟩
  | removeFile p => exact ⟨p, List.mem_cons_self .., last p (by simpa [touched] using h)⟩
  | write p content =>
    refine ⟨p, List.mem_cons_self .., ?_⟩
    rw [touched, Option.mem_toList, Place.location?] at h
    split at h
    · rename_i m reached
      cases h
      have located := (Place.locate_iff_leads p l).mp ((Place.locate_iff_ofPath p l).mpr reached)
      exact Place.eq_wayEnd_of_leads plain _ _ _ _ located.2
    · rename_i parent name reached
      cases h
      exact (Place.free_of_ofPath_plain plain p parent name reached).1
    · cases h
  | rename source target =>
    rcases List.mem_append.mp h with h | h
    · exact ⟨source, List.mem_cons_self .., last source (by simpa using h)⟩
    · exact ⟨target, by simp [paths], last target (by simpa using h)⟩

theorem isProper_of_perform (call : Call) (proper : fs.tree.IsProper)
    (plain : ∀ p ∈ call.paths, p.IsPlain) (h : call.perform fs = .ok fs') :
    fs'.tree.IsProper := by
  cases call with
  | createDirectory p =>
    obtain ⟨last, found, free, rfl⟩ := FileSystem.lastName_of_createDirectory h
    obtain ⟨front, slashes, ends⟩ := LastName.exists_ends found
    exact FileSystem.isProper_add proper _ _ _ ends.directory
      (LastName.isLegalName_of_ofPath (plain p (by simp [paths])) found) free rfl
  | createFile p =>
    obtain ⟨last, found, -, free, rfl⟩ := FileSystem.lastName_of_createFile h
    obtain ⟨front, slashes, ends⟩ := LastName.exists_ends found
    exact FileSystem.isProper_add proper _ _ _ ends.directory
      (LastName.isLegalName_of_ofPath (plain p (by simp [paths])) found) free rfl
  | write p content =>
    rcases FileSystem.write_cases p content h with
      ⟨parent, name, reached, rfl⟩ | ⟨m, old, -, found, tree⟩
    · obtain ⟨directory, free⟩ := Place.free_of_ofPath p parent name reached
      obtain ⟨-, inside, named, notUp, short⟩ :=
        Place.free_of_ofPath_plain proper.noLinks p parent name reached
      have legal := p.isLegalName_of_mem (plain p (by simp [paths]))
        (Place.checkText_of_ofPath reached) name inside named notUp short
      exact FileSystem.isProper_add proper parent name _ directory legal free rfl
    · rw [tree]
      exact proper.write m old content found
  | rename source target =>
    obtain ⟨old, new, n, hold, hnew, hn⟩ := FileSystem.names_of_rename h
    obtain ⟨-, within, -⟩ := FileSystem.guards_of_rename hold hnew hn h
    rcases FileSystem.moves_of_rename hold hnew hn h with ⟨-, rfl⟩ | ⟨-, empty, moved⟩
    · exact proper
    · obtain ⟨front, slashes, ends⟩ := LastName.exists_ends hnew
      rw [moved]
      refine proper.move_of_bare _ _ _ (by simp [LastName.location])
        ((fs.tree.contains_iff _).mpr ⟨n, hn⟩) ends.directory
        (LastName.isLegalName_of_ofPath (plain target (by simp [paths])) hnew)
        (proper.closed.bare _ empty) ?_
      rwa [← List.isPrefixOf_iff_prefix, Bool.not_eq_true]
  | removeFile p =>
    obtain ⟨last, n, -, found, noDirectory, tree⟩ := FileSystem.lastName_of_removeFile h
    rw [tree]
    refine proper.erase _ ?_
    rw [FileTree.isDirectory, found]
    exact noDirectory

end Call
namespace FileSystem

section
variable {fs fs' : FileSystem} {entry target : Path} {l : Location}
  (directory : fs.tree.isDirectory l = true)

include directory in
theorem isDirectory_of_rename (proper : fs.tree.IsProper)
    (below : LiesBelow l (wayEnd [] target.segments)) (h : fs.rename entry target = .ok fs') :
    fs'.tree.isDirectory l = true := by
  obtain ⟨old, new, n, hold, hnew, hn⟩ := names_of_rename h
  obtain ⟨-, outside, -⟩ := guards_of_rename hold hnew hn h
  rw [← LastName.location_eq_wayEnd proper.noLinks hnew] at below
  have notNew : ¬ new.location <+: l := fun above =>
    below.2 (below.1.eq_of_length_le above.length_le).symm
  have above : l <+: new.parent :=
    (List.prefix_concat_iff.mp below.1).resolve_left fun same => below.2 same.symm
  have notOld : ¬ old.location <+: l := by
    intro within
    rw [List.isPrefixOf_iff_prefix.mpr (within.trans above)] at outside
    cases outside
  have same := (Call.rename entry target).get?_of_untouched h l (by
    intro m hm
    rw [Call.touched, LastName.location?_of_ofPath hold, LastName.location?_of_ofPath hnew] at hm
    rcases List.mem_append.mp hm with hm | hm
    · rwa [Option.mem_toList.mp hm |> Option.some.inj |>.symm]
    · rwa [Option.mem_toList.mp hm |> Option.some.inj |>.symm])
  rwa [FileTree.isDirectory, same]

include directory in
theorem isDirectory_of_removeFile (h : fs.removeFile entry = .ok fs') : fs'.tree.isDirectory l = true := by
  obtain ⟨last, n, found, there, noDirectory, tree⟩ := lastName_of_removeFile h
  have elsewhere : l ≠ last.location := by
    rintro rfl
    rw [FileTree.isDirectory, there] at directory
    simp [noDirectory] at directory
  rwa [tree, FileTree.isDirectory, get?_erase _ _ _ (by simp [LastName.location]),
    if_neg elsewhere]

end

end FileSystem
end SimpleFiles
